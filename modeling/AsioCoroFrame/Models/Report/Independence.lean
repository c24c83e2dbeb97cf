import AsioCoroFrame.Models.Report.Guard
import AsioCoroFrame.Models.Report.Lookup

/-!
# Rows that depend on the rows before them

The exception handler of a pass is outside of its loop over the rows, so the
first row with missing master data ends the pass for all the rows behind it.
Four passes check for a row first and treat every row on its own; the other
five do so exactly when no earlier row is incomplete, or when there is nothing
left to fill in behind it.
-/

namespace AsioCoroFrame.Report

/-! ## Complete rows

A row is complete for a pass when every query whose answer the pass reads
unchecked has a row.
-/

def PiComplete (db : Content) (data : ReportData) : Prop :=
  Found db (piQuery (data .quotationId)) fun _ => True

def PaymentComplete (db : Content) (data : ReportData) : Prop :=
  Each db (paymentTermQuery (data .quotationId)) fun term =>
    term.text "payment_method_id" ≠ [] →
      Found db (paymentMethodQuery (term.text "payment_method_id")) fun _ => True

def CurrencyComplete (db : Content) (data : ReportData) : Prop :=
  Found db (currencyIdQuery (data .quotationId)) fun quotation =>
    quotation.text "currency_id" ≠ [] →
      Found db (currencyQuery (quotation.text "currency_id")) fun _ => True

def SalesComplete (db : Content) (data : ReportData) : Prop :=
  Found db (salesIdQuery (data .quotationId)) fun quotation =>
    Found db (systemAccountQuery (quotation.text "sales_id")) fun account =>
      Found db (employeeQuery (account.text "employee_no")) fun _ => True

/-- The import area of a country is either not asked for or present. -/
def AreaComplete (db : Content) (country : Row) : Prop :=
  country "area_id" ≠ none →
    Found db (areaQuery "short_name" (country.text "area_id")) fun _ => True

def CustomerComplete (db : Content) (data : ReportData) : Prop :=
  Found db (deliveryCountryQuery (data .quotationId)) fun quotation =>
    Found db (countryQuery (quotation.text "delivery_country_id")) fun country =>
      AreaComplete db country ∧
      Found db (customerIdQuery (data .quotationId)) fun quotation =>
        quotation "customer_basic_id" ≠ none →
        Found db (customerQuery (quotation.text "customer_basic_id")) fun customer =>
          customer.text "country_id" ≠ [] →
          Found db (countryQuery (customer.text "country_id")) fun country =>
            country "full_name" ≠ none → country "area_id" ≠ none →
              Found db (areaQuery "full_name" (country.text "area_id")) fun _ => True

/-! ## Settled rows

A row is settled for a pass when its members already hold what the pass finds
for them before it comes to an end.
-/

def PiSettled (db : Content) (data : ReportData) : Prop :=
  Each db (piQuery (data .quotationId)) fun invoice =>
    (invoice.text "pi_no" ≠ [] → data .piNo = invoice.text "pi_no") ∧
    (invoice "buyer_po" ≠ none → data .buyersPo = invoice.text "buyer_po") ∧
    (invoice "contract_no" ≠ none → data .contractNo = invoice.text "contract_no")

def PaymentSettled (db : Content) (data : ReportData) : Prop :=
  Each db (paymentTermQuery (data .quotationId)) fun term =>
    term.text "payment_method_id" ≠ [] →
      Each db (paymentMethodQuery (term.text "payment_method_id")) fun method =>
        method.text "name" ≠ [] → data .paymentTermDesc = method.text "name"

def CurrencySettled (db : Content) (data : ReportData) : Prop :=
  Each db (currencyIdQuery (data .quotationId)) fun quotation =>
    quotation.text "currency_id" ≠ [] →
      Each db (currencyQuery (quotation.text "currency_id")) fun currency =>
        currency.text "code" ≠ [] → data .currency = currency.text "code" ∧
          data .priceTotalCurrency = currency.text "code" ∧
          data .guidedCurrency = currency.text "code"

def SalesSettled (db : Content) (data : ReportData) : Prop :=
  Each db (salesIdQuery (data .quotationId)) fun quotation =>
    Each db (systemAccountQuery (quotation.text "sales_id")) fun account =>
      Each db (employeeQuery (account.text "employee_no")) fun employee =>
        data .salesFullName = employee.text "full_name"

def CustomerSettled (db : Content) (data : ReportData) : Prop :=
  Each db (deliveryCountryQuery (data .quotationId)) fun quotation =>
    Each db (countryQuery (quotation.text "delivery_country_id")) fun country =>
      (country "full_name" ≠ none → data .receivingCountries = country.text "full_name") ∧
      (country "area_id" ≠ none →
        Each db (areaQuery "short_name" (country.text "area_id")) fun area =>
          area "short_name" ≠ none → data .importArea = area.text "short_name") ∧
      (AreaComplete db country →
        Each db (customerIdQuery (data .quotationId)) fun quotation =>
          quotation "customer_basic_id" ≠ none →
          Each db (customerQuery (quotation.text "customer_basic_id")) fun customer =>
            customer.text "country_id" ≠ [] →
            data .countryId = customer.text "country_id" ∧
            (customer.text "trade_name" ≠ [] → data .accountName = customer.text "trade_name") ∧
            Each db (countryQuery (customer.text "country_id")) fun country =>
              country "full_name" ≠ none →
              data .customerCountries = country.text "full_name" ∧
              (country "area_id" ≠ none →
                Each db (areaQuery "full_name" (country.text "area_id")) fun area =>
                  area "full_name" ≠ none → data .countryRegion = area.text "full_name"))

/-! ## The conditions of the five passes

Each proof walks through the text of its program.
-/

variable (db : Content) (data : ReportData) (res : ResultSet)

theorem dealWithSalesInfo_spec :
    Spec db data [] dealWithSalesInfo res (SalesComplete db data) (SalesSettled db data) := by
  apply spec_get List.not_mem_nil
  apply spec_found raises_getStringAt
  intro quotation hq
  apply spec_getStringAt rfl hq
  apply spec_found raises_getString
  intro account ha
  apply spec_getString List.mem_cons_self ha
  apply spec_found raises_getString
  intro employee he
  apply spec_getString List.mem_cons_self he
  exact spec_set_last List.not_mem_nil

theorem dealWithCurrencyInfo_spec :
    Spec db data [] dealWithCurrencyInfo res (CurrencyComplete db data)
      (CurrencySettled db data) := by
  apply spec_get List.not_mem_nil
  apply spec_found raises_blank
  intro quotation hq
  apply spec_unlessBlank rfl hq
  intro _
  apply spec_getStringAt rfl hq
  apply spec_found raises_blank
  intro currency hc
  refine Spec.congr (spec_unlessBlank rfl hc fun _ => ?_) (imp_true_iff _) Iff.rfl
  apply spec_getString List.mem_cons_self hc
  apply spec_set List.not_mem_nil
  apply spec_getString List.mem_cons_self hc
  apply spec_set (by simp)
  apply spec_getString List.mem_cons_self hc
  exact spec_set_last (by simp)

theorem dealWithPaymentMethodInfo_spec :
    Spec db data [] dealWithPaymentMethodInfo res (PaymentComplete db data)
      (PaymentSettled db data) := by
  apply spec_get List.not_mem_nil
  apply spec_looked
  · intro hq
    exact Spec.of_run (fun _ _ => run_missing_none hq) spec_pure
  · intro term ht
    apply spec_unlessMissing rfl ht
    intro _
    apply spec_getStringAt rfl ht
    apply spec_found raises_blank
    intro method hm
    refine Spec.congr (spec_unlessBlank rfl hm fun _ => ?_) (imp_true_iff _) Iff.rfl
    apply spec_getString List.mem_cons_self hm
    exact spec_set_last List.not_mem_nil

theorem dealWithPi_spec :
    Spec db data [] dealWithPi res (PiComplete db data) (PiSettled db data) := by
  have hb : "buyer_po" ∈ (piQuery (data .quotationId)).columns :=
    List.mem_cons_of_mem _ List.mem_cons_self
  have hc : "contract_no" ∈ (piQuery (data .quotationId)).columns :=
    List.mem_cons_of_mem _ (List.mem_cons_of_mem _ List.mem_cons_self)
  apply spec_get List.not_mem_nil
  apply spec_found
  · intro hq e
    rw [setUnlessMissing, bind_assoc, run_missing_none hq]
    exact raises_setUnlessNull hq e
  · intro invoice hi
    apply spec_assign (assigns_setUnlessMissing _ rfl hi) List.not_mem_nil
    apply spec_assign (assigns_setUnlessNull _ hb hi) (by simp)
    exact spec_assign_last (assigns_setUnlessNull _ hc hi) (by simp)

/-- The second column of the query for a country. -/
theorem area_id_mem (id : Bytes) : "area_id" ∈ (countryQuery id).columns :=
  List.mem_cons_of_mem _ List.mem_cons_self

theorem setImportArea_writes : setImportArea.Obeys (writes [.importArea]) (fun _ => True) () := by
  have hset : (setUnlessNull .importArea "short_name").Obeys (writes [.importArea])
      (fun _ => True) () := by
    refine ⟨trivial, fun b => ?_⟩
    cases b with
    | true => trivial
    | false => exact ⟨trivial, fun _ => ⟨List.mem_cons_self, fun _ => trivial⟩⟩
  refine ⟨trivial, fun b => ?_⟩
  cases b with
  | true => trivial
  | false => exact ⟨trivial, fun _ => ⟨trivial, fun _ => ⟨trivial, fun _ => hset⟩⟩⟩

theorem setImportArea_spec {F : List Field} {id : Bytes} {country : Row}
    (h : firstRow db (countryQuery id) = some country) (hF : .importArea ∉ F) :
    Spec db data F setImportArea (fetched db (countryQuery id)) (AreaComplete db country)
      (country "area_id" ≠ none →
        Each db (areaQuery "short_name" (country.text "area_id")) fun area =>
          area "short_name" ≠ none → data .importArea = area.text "short_name") := by
  apply spec_unlessNull (area_id_mem id) h
  intro _
  apply spec_getString (area_id_mem id) h
  apply spec_found
  · intro ha
    exact raises_isNull ha
  · intro area ha
    exact spec_assign_last (assigns_setUnlessNull _ List.mem_cons_self ha) hF

theorem dealWithCustomerInfo_spec :
    Spec db data [] dealWithCustomerInfo res (CustomerComplete db data)
      (CustomerSettled db data) := by
  apply spec_get List.not_mem_nil
  apply spec_found raises_getStringAt
  intro quotation hq
  apply spec_getStringAt rfl hq
  apply spec_found raises_setUnlessNull
  intro country hc
  apply spec_assign (assigns_setUnlessNull _ List.mem_cons_self hc) List.not_mem_nil
  apply spec_seq setImportArea_writes (setImportArea_spec db data hc (by simp))
  intro res'
  apply spec_get (by simp)
  apply spec_found raises_isNull
  intro quotation hq
  apply spec_unlessNull List.mem_cons_self hq
  intro _
  apply spec_getStringAt rfl hq
  apply spec_found raises_blank
  intro customer hcu
  apply spec_unlessBlank rfl hcu
  intro _
  apply spec_getStringAt rfl hcu
  apply spec_set (by simp)
  apply spec_assign (assigns_setAccountName _ hcu) (by simp)
  apply spec_getStringAt rfl hcu
  apply spec_found raises_isNull
  intro country hco
  apply spec_unlessNull List.mem_cons_self hco
  intro _
  apply spec_getStringAt rfl hco
  apply spec_set (by simp)
  apply spec_unlessNull (area_id_mem _) hco
  intro _
  have hcol : (countryQuery (customer.text "country_id")).columns[1]? = some "area_id" := rfl
  apply spec_getStringAt hcol hco
  apply spec_found raises_isNull
  intro area har
  refine Spec.congr (spec_unlessNull List.mem_cons_self har fun _ => ?_) (imp_true_iff _) Iff.rfl
  apply spec_getStringAt rfl har
  exact spec_set_last (by simp)

/-! ## A pass over concatenated lists -/

/-- Every row is settled, up to the first one that is not complete. -/
def NothingLeft (complete settled : ReportData → Prop) : List ReportData → Prop
  | [] => True
  | data :: rows => settled data ∧ (complete data → NothingLeft complete settled rows)

/-- The rows `l₂` are filled as if they had no rows `l₁` before them. -/
def Apart (complete settled : ReportData → Prop) (l₁ l₂ : List ReportData) : Prop :=
  (∀ data ∈ l₁, complete data) ∨ NothingLeft complete settled l₂

/-- What a pass asks of two lists of rows to treat them independently of each other. -/
def Undisturbed (db : Content) (l₁ l₂ : List ReportData) : Pass → Prop
  | .salesInfo => Apart (SalesComplete db) (SalesSettled db) l₁ l₂
  | .customerInfo => Apart (CustomerComplete db) (CustomerSettled db) l₁ l₂
  | .currencyInfo => Apart (CurrencyComplete db) (CurrencySettled db) l₁ l₂
  | .paymentMethodInfo => Apart (PaymentComplete db) (PaymentSettled db) l₁ l₂
  | .pi => Apart (PiComplete db) (PiSettled db) l₁ l₂
  | .productInfo | .tradeTermInfo | .salesCountry | .approvedStatus => True

section Lists

variable {db} {body : RowProg Unit} {complete settled : ReportData → Prop}

/-- The rows after a pass, when no query fails. -/
abbrev enriched (db : Content) (body : RowProg Unit) (l : List ReportData) (res : ResultSet) :
    List ReportData := (enrich (answers db) body l res).1

theorem enriched_cons_of_ends {data : ReportData} {res : ResultSet} (l : List ReportData)
    (h : (runOn db body ⟨data, res⟩).1 = some ()) :
    enriched db body (data :: l) res =
      (runOn db body ⟨data, res⟩).2.data ::
        enriched db body l (runOn db body ⟨data, res⟩).2.res := by
  rcases hrun : runOn db body ⟨data, res⟩ with ⟨_ | _, s⟩
  · simp [hrun] at h
  · rw [runOn] at hrun
    simp only [enriched, enrich, hrun]

theorem enriched_cons_of_raises {data : ReportData} {res : ResultSet} (l : List ReportData)
    (h : (runOn db body ⟨data, res⟩).1 ≠ some ()) :
    enriched db body (data :: l) res = (runOn db body ⟨data, res⟩).2.data :: l := by
  rcases hrun : runOn db body ⟨data, res⟩ with ⟨_ | _, s⟩
  · rw [runOn] at hrun
    simp only [enriched, enrich, hrun]
  · simp [hrun] at h

/-- A program that starts with a query of its own does not depend on the result left before. -/
def Fresh (db : Content) (body : RowProg Unit) : Prop :=
  ∀ data res res', runOn db body ⟨data, res⟩ = runOn db body ⟨data, res'⟩

theorem Fresh.enriched (hb : Fresh db body) (l : List ReportData) (res res' : ResultSet) :
    enriched db body l res = enriched db body l res' := by
  cases l with
  | nil => rfl
  | cons data l => simp only [Report.enriched, enrich, hb data res res']

/-- Rows that all complete hand over to the rows behind them. -/
theorem enriched_append_of_ends (hb : Fresh db body) {l₁ : List ReportData}
    (h : ∀ data ∈ l₁, ∀ res, (runOn db body ⟨data, res⟩).1 = some ()) (l₂ : List ReportData)
    (res res₁ res₂ : ResultSet) :
    enriched db body (l₁ ++ l₂) res = enriched db body l₁ res₁ ++ enriched db body l₂ res₂ := by
  induction l₁ generalizing res res₁ with
  | nil => exact hb.enriched l₂ res res₂
  | cons data l ih =>
    have hd := h data List.mem_cons_self
    rw [List.cons_append, enriched_cons_of_ends _ (hd res), enriched_cons_of_ends _ (hd res₁),
      hb data res res₁, List.cons_append]
    rw [ih (fun d hm => h d (List.mem_cons_of_mem _ hm))]

/-- Behind a row that raises nothing is filled in. -/
theorem enriched_append_of_raises (hb : Fresh db body) {l₁ : List ReportData}
    (h : ∃ data ∈ l₁, ∀ res, (runOn db body ⟨data, res⟩).1 ≠ some ()) (l₂ : List ReportData)
    (res res₁ : ResultSet) :
    enriched db body (l₁ ++ l₂) res = enriched db body l₁ res₁ ++ l₂ := by
  induction l₁ generalizing res res₁ with
  | nil => simp at h
  | cons data l ih =>
    by_cases hd : (runOn db body ⟨data, res⟩).1 = some ()
    · have hd₁ : (runOn db body ⟨data, res₁⟩).1 = some () := by rwa [hb data res₁ res]
      have hl : ∃ data ∈ l, ∀ res, (runOn db body ⟨data, res⟩).1 ≠ some () := by
        obtain ⟨d, hm, hraise⟩ := h
        rcases List.mem_cons.1 hm with rfl | hm
        · exact absurd hd (hraise res)
        · exact ⟨d, hm, hraise⟩
      rw [List.cons_append, enriched_cons_of_ends _ hd, enriched_cons_of_ends _ hd₁,
        hb data res res₁, List.cons_append]
      rw [ih hl]
    · have hd₁ : (runOn db body ⟨data, res₁⟩).1 ≠ some () := by rwa [hb data res₁ res]
      rw [List.cons_append, enriched_cons_of_raises _ hd, enriched_cons_of_raises _ hd₁,
        hb data res res₁, List.cons_append]

/-- A pass changes nothing exactly when nothing is left to fill in. -/
theorem enriched_eq_self
    (hs : ∀ data res, Spec db data [] body res (complete data) (settled data))
    (l : List ReportData) (res : ResultSet) :
    enriched db body l res = l ↔ NothingLeft complete settled l := by
  induction l generalizing res with
  | nil => exact iff_of_true rfl trivial
  | cons data l ih =>
    have hends := (hs data res).ends data fun _ _ => rfl
    have hkeeps : (runOn db body ⟨data, res⟩).2.data = data ↔ settled data := by
      simpa using (hs data res).keeps data fun _ _ => rfl
    by_cases hc : complete data
    · rw [enriched_cons_of_ends _ (hends.2 hc), List.cons.injEq, hkeeps, ih,
        NothingLeft, forall_prop_of_true hc]
    · rw [enriched_cons_of_raises _ (mt hends.1 hc), List.cons.injEq, hkeeps,
        NothingLeft]
      simp [hc]

/-- Two lists of rows are treated independently exactly when they are apart. -/
theorem enriched_append_iff (hb : Fresh db body)
    (hs : ∀ data res, Spec db data [] body res (complete data) (settled data))
    (l₁ l₂ : List ReportData) (res res₁ res₂ : ResultSet) :
    enriched db body (l₁ ++ l₂) res = enriched db body l₁ res₁ ++ enriched db body l₂ res₂ ↔
      Apart complete settled l₁ l₂ := by
  have hends (d : ReportData) (res : ResultSet) :
      (runOn db body ⟨d, res⟩).1 = some () ↔ complete d := (hs d res).ends d fun _ _ => rfl
  by_cases hall : ∀ data ∈ l₁, complete data
  · refine iff_of_true ?_ (Or.inl hall)
    exact enriched_append_of_ends hb (fun d hm res => (hends d res).2 (hall d hm)) l₂ _ _ _
  · have hraise : ∃ data ∈ l₁, ∀ res, (runOn db body ⟨data, res⟩).1 ≠ some () := by
      obtain ⟨data, hm, hc⟩ := by simpa using hall
      exact ⟨data, hm, fun res => mt (hends data res).1 hc⟩
    rw [enriched_append_of_raises hb hraise l₂ res res₁, List.append_cancel_left_eq, eq_comm,
      enriched_eq_self hs, Apart, or_iff_right hall]

end Lists

theorem Pass.fresh (pass : Pass) : Fresh db pass.body := by
  cases pass <;> exact fun _ _ _ => rfl

/-- A pass treats two lists of rows independently exactly when it is not disturbed: always when it
looks before it reads, and else when no row of the first list is incomplete or the second list
has nothing left to be filled in. -/
theorem enrich_append_iff (db : Content) (pass : Pass) (l₁ l₂ : List ReportData)
    (res res₁ res₂ : ResultSet) :
    (enrich (answers db) pass.body (l₁ ++ l₂) res).1 =
        (enrich (answers db) pass.body l₁ res₁).1 ++ (enrich (answers db) pass.body l₂ res₂).1 ↔
      Undisturbed db l₁ l₂ pass := by
  have hlooks (hp : ∀ c, Looks pass.body c) : enriched db pass.body (l₁ ++ l₂) res =
      enriched db pass.body l₁ res₁ ++ enriched db pass.body l₂ res₂ :=
    enriched_append_of_ends (Pass.fresh db pass) (fun data _ res => exec_of_looks hp db data res)
      l₂ res res₁ res₂
  cases pass with
  | salesInfo => exact enriched_append_iff (Pass.fresh db .salesInfo) (dealWithSalesInfo_spec db) ..
  | customerInfo =>
    exact enriched_append_iff (Pass.fresh db .customerInfo) (dealWithCustomerInfo_spec db) ..
  | currencyInfo =>
    exact enriched_append_iff (Pass.fresh db .currencyInfo) (dealWithCurrencyInfo_spec db) ..
  | paymentMethodInfo =>
    exact enriched_append_iff (Pass.fresh db .paymentMethodInfo)
      (dealWithPaymentMethodInfo_spec db) ..
  | pi => exact enriched_append_iff (Pass.fresh db .pi) (dealWithPi_spec db) ..
  | productInfo => exact iff_of_true (hlooks dealWithProductInfo_looks) trivial
  | tradeTermInfo => exact iff_of_true (hlooks dealWithTradeTermInfo_looks) trivial
  | salesCountry => exact iff_of_true (hlooks dealWithSalesCountry_looks) trivial
  | approvedStatus => exact iff_of_true (hlooks dealWithApprovedStatus_looks) trivial

/-! ## A currency that is not in the master data -/

/-- The row of a quotation with nothing filled in yet. -/
def quotation (id : Bytes) : ReportData := fun f => if f = .quotationId then id else []

/-- A result with one row and one column. -/
def single (column : String) (v : Bytes) : List Row :=
  [fun c => if c = column then some v else none]

/-- Quotation `A` names a currency that the table of currencies lacks, quotation `B` the euro. -/
def noCurrencyOfA : Content := fun text =>
  if text = (currencyIdQuery (ascii "A")).text then single "currency_id" (ascii "9")
  else if text = (currencyIdQuery (ascii "B")).text then single "currency_id" (ascii "1")
  else if text = (currencyQuery (ascii "1")).text then single "code" (ascii "EUR")
  else []

/-- The result of the query that the report starts with, read to its end. -/
def readUp : ResultSet := ⟨["quotation_id"], [], 1⟩

/-- Behind `A` the currency of `B` stays empty, and on its own `B` has one. -/
theorem currency_lost :
    let pass := fun rows => (enrich (answers noCurrencyOfA) Pass.currencyInfo.body rows readUp).1
    pass ([quotation (ascii "A")] ++ [quotation (ascii "B")]) ≠
      pass [quotation (ascii "A")] ++ pass [quotation (ascii "B")] := by
  intro pass h
  have hjoint : (pass ([quotation (ascii "A")] ++ [quotation (ascii "B")])).map
      (fun data => data .currency) = [[], []] := rfl
  have halone : (pass [quotation (ascii "A")] ++ pass [quotation (ascii "B")]).map
      (fun data => data .currency) = [[], ascii "EUR"] := rfl
  rw [h, halone] at hjoint
  exact absurd hjoint (by decide)

end AsioCoroFrame.Report
