import AsioCoroFrame.Core.Numeral
import AsioCoroFrame.Models.Report.Session

/-!
# The enrichment passes of the monthly report

The programs of the nine passes, with the queries as the source writes them.
Four of them check `rowsCount()` before every read; the others leave the check
out at least once.
-/

namespace AsioCoroFrame.Report

/-! ## The queries -/

/-- A query by the number of a quotation. -/
def ofQuotation (columns : List String) (table : String) (id : Bytes) : Query :=
  select columns (" from " ++ table ++ " where quotation_id='") id

def piQuery (id : Bytes) : Query :=
  ofQuotation ["pi_no", "buyer_po", "contract_no"] "t_proforma_invoice" id

def deliveryCountryQuery (id : Bytes) : Query :=
  ofQuotation ["delivery_country_id"] "t_quotation" id

def salesIdQuery (id : Bytes) : Query := ofQuotation ["sales_id"] "t_quotation" id

def systemAccountQuery (id : Bytes) : Query :=
  select ["employee_no"] " from t_system_account where system_account_id='" id

/-- The source writes two blanks in front of `from`. -/
def employeeQuery (id : Bytes) : Query :=
  select ["full_name", "position_id"] "  from t_employee where employee_id='" id

/-- The companies of an employee, in the layout of a continued literal. -/
def roleResolveQuery (employee : Bytes) : Query where
  text := ascii "\t\tselect master_file_obj_id \t\tfrom t_wf_role_resolve " ++
    ascii "\t\twhere master_file_type='COMPANY' \t\tand employee_id='" ++ employee ++ ascii "'"
  columns := ["master_file_obj_id"]

def paymentTermQuery (id : Bytes) : Query := ofQuotation ["payment_method_id"] "t_payment_term" id

def paymentMethodQuery (id : Bytes) : Query :=
  select ["name"] " from t_payment_method where payment_method_id='" id

def currencyIdQuery (id : Bytes) : Query := ofQuotation ["currency_id"] "t_quotation" id

def currencyQuery (id : Bytes) : Query :=
  select ["code"] " from t_currency where currency_id='" id

def countryQuery (id : Bytes) : Query :=
  select ["full_name", "area_id"] " from t_country where country_id='" id

def areaQuery (column : String) (id : Bytes) : Query :=
  select [column] " from t_area where area_id='" id

def customerIdQuery (id : Bytes) : Query := ofQuotation ["customer_basic_id"] "t_quotation" id

def customerQuery (id : Bytes) : Query :=
  select ["country_id", "trade_name"] " from t_customer_basic where customer_basic_id='" id

/-! ## The passes -/

def dealWithPi : RowProg Unit := do
  query (piQuery (← get .quotationId))
  next
  setUnlessMissing .piNo "pi_no"
  setUnlessNull .buyersPo "buyer_po"
  setUnlessNull .contractNo "contract_no"

/-- The receiving countries, for a quotation with a delivery country. -/
def setReceivingCountries : RowProg Unit := do
  if ← missing "delivery_country_id" then return
  query (select ["full_name"] " from t_country where country_id='" (← getStringAt 1))
  next
  setUnlessMissing .receivingCountries "full_name"

/-- The name of the sales company, for an employee with one. -/
def setSalesCompanyName : RowProg Unit := do
  if ← missing "master_file_obj_id" then return
  query (select ["short_name"] " from t_company where company_id='" (← getStringAt 1))
  next
  setUnlessMissing .salesCompanyName "short_name"

def dealWithSalesCountry : RowProg Unit := do
  query (deliveryCountryQuery (← get .quotationId))
  next
  setReceivingCountries
  query (salesIdQuery (← get .quotationId))
  next
  setUnlessMissing .ownerSalesSysAccountId "sales_id"
  query (systemAccountQuery (← get .ownerSalesSysAccountId))
  next
  setUnlessMissing .salesEmployeeId "employee_no"
  query (roleResolveQuery (← get .salesEmployeeId))
  next
  setSalesCompanyName

/-- The texts of the approval statuses, in the order of their numbers. -/
def approvalStatuses : List Bytes :=
  [ascii "Pending", ascii "Draft", ascii "Submitted", ascii "Approved", ascii "Accepted",
    ascii "Canceled", ascii "Expired", ascii "Rejected", ascii "QU_Generated", ascii "Refused",
    ascii "PI_Generated", ascii "Paying", ascii "AR_Confirmed", ascii "SO_Generated"]

/-- The map from the numerals of the statuses to their texts; a key that it lacks gives the empty
text. -/
def approvalStatus (status : Bytes) : Bytes :=
  (((List.range approvalStatuses.length).map fun n => decimal n).zip approvalStatuses).lookup status
    |>.getD []

def dealWithApprovedStatus : RowProg Unit := do
  query (ofQuotation ["approval_status"] "t_quotation" (← get .quotationId))
  next
  if ← missing "approval_status" then return
  let status ← getStringAt 1
  set .approvalStatus (approvalStatus status)

def dealWithTradeTermInfo : RowProg Unit := do
  query (ofQuotation ["trade_term_id"] "t_quotation" (← get .quotationId))
  next
  if ← missing "trade_term_id" then return
  query (select ["short_name"] " from t_trade_term where trade_term_id='" (← getStringAt 1))
  next
  if ← missing "short_name" then return
  set .priceCondition (← getString "short_name")

def dealWithProductInfo : RowProg Unit := do
  query (select ["item_master_id"] " from t_quotation_detail where quotation_detail_id='"
    (← get .quotationDetailId))
  next
  if ← missing "item_master_id" then return
  query (select ["item_basic_id", "product_code", "product_name"]
    " from t_item_master where item_master_id='" (← getStringAt 1))
  next
  if ← missing "item_basic_id" then return
  set .productNameId (← getString "product_code")
  set .productName (← getString "product_name")
  query (select ["item_category_id"] " from t_item_basic where item_basic_id='" (← getStringAt 1))
  next
  if ← missing "item_category_id" then return
  query (select ["product_category_id"]
    " from t_product_category_item_category_link where item_category_id='" (← getStringAt 1))
  next
  if ← missing "product_category_id" then return
  query (select ["parent_product_category_id"]
    " from t_product_category where product_category_id='" (← getStringAt 1))
  next
  if ← missing "parent_product_category_id" then return

def dealWithPaymentMethodInfo : RowProg Unit := do
  query (paymentTermQuery (← get .quotationId))
  next
  if ← missing "payment_method_id" then return
  query (paymentMethodQuery (← getStringAt 1))
  next
  if ← blank "name" then return
  set .paymentTermDesc (← getString "name")

def dealWithCurrencyInfo : RowProg Unit := do
  query (currencyIdQuery (← get .quotationId))
  next
  if ← blank "currency_id" then return
  query (currencyQuery (← getStringAt 1))
  next
  if ← blank "code" then return
  set .currency (← getString "code")
  set .priceTotalCurrency (← getString "code")
  set .guidedCurrency (← getString "code")

/-- The import area, for a delivery country that has one. -/
def setImportArea : RowProg Unit := do
  if ← isNull "area_id" then return
  query (areaQuery "short_name" (← getString "area_id"))
  next
  setUnlessNull .importArea "short_name"

/-- The account name, unless the trade name is NULL or empty. -/
def setAccountName : RowProg Unit := do
  if ← isNull "trade_name" then return
  if (← getStringAt 2) = [] then return
  set .accountName (← getStringAt 2)

def dealWithCustomerInfo : RowProg Unit := do
  query (deliveryCountryQuery (← get .quotationId))
  next
  query (countryQuery (← getStringAt 1))
  next
  setUnlessNull .receivingCountries "full_name"
  setImportArea
  query (customerIdQuery (← get .quotationId))
  next
  if ← isNull "customer_basic_id" then return
  query (customerQuery (← getStringAt 1))
  next
  if ← blank "country_id" then return
  set .countryId (← getStringAt 1)
  setAccountName
  query (countryQuery (← getStringAt 1))
  next
  if ← isNull "full_name" then return
  set .customerCountries (← getStringAt 1)
  if ← isNull "area_id" then return
  query (areaQuery "full_name" (← getStringAt 2))
  next
  if ← isNull "full_name" then return
  set .countryRegion (← getStringAt 1)

def dealWithSalesInfo : RowProg Unit := do
  query (salesIdQuery (← get .quotationId))
  next
  query (systemAccountQuery (← getStringAt 1))
  next
  query (employeeQuery (← getString "employee_no"))
  next
  set .salesFullName (← getString "full_name")

/-- The nine passes. -/
inductive Pass where
  | salesInfo
  | customerInfo
  | currencyInfo
  | paymentMethodInfo
  | productInfo
  | tradeTermInfo
  | salesCountry
  | approvedStatus
  | pi
  deriving DecidableEq, Repr

/-- The program that a pass runs on every row. -/
def Pass.body : Pass → RowProg Unit
  | .salesInfo => dealWithSalesInfo
  | .customerInfo => dealWithCustomerInfo
  | .currencyInfo => dealWithCurrencyInfo
  | .paymentMethodInfo => dealWithPaymentMethodInfo
  | .productInfo => dealWithProductInfo
  | .tradeTermInfo => dealWithTradeTermInfo
  | .salesCountry => dealWithSalesCountry
  | .approvedStatus => dealWithApprovedStatus
  | .pi => dealWithPi

end AsioCoroFrame.Report
