import AsioCoroFrame.Core.Lists
import AsioCoroFrame.Models.Cluster.Reply
import AsioCoroFrame.Models.Http.Message

/-!
# The file opened by the default handler

The default `GET` handler erases one of two neighbouring dots of the path until
there are none, appends what is left to the name of the web directory, and adds
an index file to a name without a dot. The loop collapses every run of dots, so
no component of the name is `..`; nothing separates the directory from the path.
-/

namespace AsioCoroFrame.Http

open Cluster (cString)

/-- The dot of a file name. -/
def dot : Byte := 46

/-- The paths that the default handler passes on to `deal_with_flow_number` start with this. -/
def flowNoPrefix : Bytes := ascii "/flowNo/"

/-- The loop that erases one dot of the leftmost `..`; running out of fuel means that it never
ends. -/
def eraseDots : Nat → Bytes → Option Bytes
  | 0, _ => none
  | fuel + 1, path =>
    match findSub (ascii "..") path with
    | none => some path
    | some pos => eraseDots fuel (path.eraseIdx pos)

/-- The file name made of the path that the loop has left. -/
def fileName (path : Bytes) : Bytes :=
  let filename := ascii "web" ++ path
  match findFrom dot 0 filename with
  | some _ => filename
  | none =>
    (if filename.getLast? = some slash then filename else filename ++ ascii "/") ++
      ascii "index.html"

/-- What the default `GET` handler turns to. -/
inductive Target where
  /-- `deal_with_flow_number`. -/
  | flowNumber
  /-- The name handed to the system by `ifs.open`. -/
  | file (name : Bytes)
  deriving DecidableEq, Repr

/-- `default_resource["GET"]`, up to opening the file. -/
def defaultGet (path : Bytes) : Option Target :=
  if path.take flowNoPrefix.length = flowNoPrefix then some .flowNumber
  else (eraseDots (path.length + 1) path).map fun path => .file (cString (fileName path))

/-- A file name that stays below the web directory, component by component. -/
def Confined (name : Bytes) : Prop :=
  (name.splitOn slash).head? = some (ascii "web") ∧ ascii ".." ∉ name.splitOn slash

/-! ## Collapsing dots -/

theorem ascii_dotdot : ascii ".." = [dot, dot] := by decide

/-- The loop collapses every run of dots into one dot. -/
theorem eraseDots_eq {fuel : Nat} {path : Bytes} (h : path.length < fuel) :
    eraseDots fuel path = some (path.destutter (NotBoth dot)) := by
  induction fuel generalizing path with
  | zero => exact absurd h (Nat.not_lt_zero _)
  | succ fuel ih =>
    rw [eraseDots, ascii_dotdot]
    cases hfind : findSub [dot, dot] path with
    | none =>
      have hchain := isChain_notBoth.mpr (findSub_eq_none.mp hfind)
      simp only [List.destutter_of_isChain _ _ hchain]
    | some pos =>
      obtain ⟨⟨b, hb⟩, hlen⟩ := findSub_some hfind
      rw [List.length_cons, List.length_singleton] at hlen
      have hpath : path = path.take pos ++ dot :: dot :: b := by
        conv_lhs => rw [← List.take_append_drop pos path, ← hb]
        rfl
      have herase : path.eraseIdx pos = path.take pos ++ dot :: b := by
        rw [List.eraseIdx_eq_take_drop_succ, ← List.drop_drop, ← hb]
        rfl
      have hshort : (path.eraseIdx pos).length < fuel := by
        rw [List.length_eraseIdx_of_lt (by omega)]
        omega
      have hdouble := destutter_double dot (path.take pos) b
      rw [← herase, ← hpath] at hdouble
      simp only [ih hshort, hdouble]

/-- Every maximal run of dots cut down to one dot. -/
def collapseDots (path : Bytes) : Bytes := (runs dot path).flatMap (·.take 1)

theorem collapseDots_eq (path : Bytes) : collapseDots path = path.destutter (NotBoth dot) :=
  (isRuns_runs dot path).destutter.symm

/-- The loop ends, with every maximal run of dots replaced by one dot and all other bytes kept in
order. Its result has no neighbouring dots, so running it again changes nothing. -/
theorem eraseDots_collapse (path : Bytes) :
    IsRuns dot path (runs dot path) ∧
      (∀ fuel, path.length < fuel → eraseDots fuel path = some (collapseDots path)) ∧
      ¬ ascii ".." <:+: collapseDots path ∧
      ∀ fuel, 0 < fuel → eraseDots fuel (collapseDots path) = some (collapseDots path) := by
  have hno : ¬ [dot, dot] <:+: collapseDots path := by
    rw [collapseDots_eq]
    exact isChain_notBoth.mp (List.isChain_destutter _ path)
  refine ⟨isRuns_runs dot path, fun fuel h => ?_, ascii_dotdot ▸ hno, fun fuel h => ?_⟩
  · rw [eraseDots_eq h, collapseDots_eq]
  · obtain ⟨fuel, rfl⟩ := Nat.exists_eq_succ_of_ne_zero (Nat.pos_iff_ne_zero.mp h)
    have hfind : findSub [dot, dot] (collapseDots path) = none := findSub_eq_none.mpr hno
    simp only [eraseDots, ascii_dotdot, hfind]

/-! ## The components of the name -/

theorem isChain_of_not_mem {s : Bytes} (h : dot ∉ s) : s.IsChain (NotBoth dot) :=
  isChain_notBoth.mpr fun hinf => h (hinf.subset (by simp))

/-- A path without neighbouring dots makes a name without them. -/
theorem fileName_isChain {path : Bytes} (h : path.IsChain (NotBoth dot)) :
    (fileName path).IsChain (NotBoth dot) := by
  have hweb : (ascii "web").IsChain (NotBoth dot) := isChain_of_not_mem (by decide)
  have hindex : (ascii "index.html").IsChain (NotBoth dot) := by decide
  cases hfind : findFrom dot 0 (ascii "web" ++ path) with
  | some _ =>
    simp only [fileName, hfind]
    refine List.isChain_append.mpr ⟨hweb, h, ?_⟩
    rintro x hx y _ ⟨rfl, _⟩
    exact absurd hx (by decide)
  | none =>
    have hno : dot ∉ if (ascii "web" ++ path).getLast? = some slash then ascii "web" ++ path
        else ascii "web" ++ path ++ ascii "/" := by
      have hpath := findFrom_zero_eq_none.mp hfind
      split
      · exact hpath
      · simpa [show dot ∉ ascii "/" by decide] using hpath
    simp only [fileName, hfind]
    refine List.isChain_append.mpr ⟨isChain_of_not_mem hno, hindex, ?_⟩
    rintro x _ y hy ⟨_, rfl⟩
    exact absurd hy (by decide)

/-- Whatever the path, no component of the opened name is `..`. -/
theorem dotdot_not_mem_components (path : Bytes) :
    ascii ".." ∉ (cString (fileName (path.destutter (NotBoth dot)))).splitOn slash := by
  intro hmem
  have hinf := (isInfix_of_mem_splitOn hmem).trans (List.takeWhile_prefix _).isInfix
  rw [ascii_dotdot] at hinf
  exact isChain_notBoth.mp (fileName_isChain (List.isChain_destutter _ path)) hinf

/-- The name is the directory followed at once by the path, or by the index file. -/
theorem fileName_eq (path : Bytes) :
    ∃ tail, fileName path = ascii "web" ++ tail ∧
      tail.head? = some (path.head?.getD slash) := by
  cases path with
  | nil => exact ⟨ascii "/index.html", by decide, by decide⟩
  | cons b path =>
    simp only [fileName]
    split
    · exact ⟨b :: path, rfl, rfl⟩
    · split
      · exact ⟨b :: path ++ ascii "index.html", by simp, rfl⟩
      · exact ⟨b :: path ++ ascii "/" ++ ascii "index.html", by simp, rfl⟩

/-- The first component is the directory exactly when a separator or a NUL byte follows it. -/
theorem head?_components {tail : Bytes} {b : Byte} (h : tail.head? = some b) :
    ((cString (ascii "web" ++ tail)).splitOn slash).head? = some (ascii "web") ↔
      b = slash ∨ b = 0 := by
  obtain ⟨t, rfl⟩ : ∃ t, tail = b :: t := by
    cases tail with
    | nil => cases h
    | cons c t =>
      cases h
      exact ⟨t, rfl⟩
  have hweb : (ascii "web" ++ cString (b :: t)).takeWhile (· ≠ slash) =
      ascii "web" ++ (cString (b :: t)).takeWhile (· ≠ slash) :=
    List.takeWhile_append_of_pos (List.all_eq_true.1 (by decide))
  rw [head?_splitOn, Cluster.cString_append _ (by decide), hweb, Option.some.injEq,
    List.append_right_eq_self]
  by_cases hz : b = 0
  · simp [cString, hz]
  · have hkeep : cString (b :: t) = b :: cString t := by simp [cString, hz]
    rw [hkeep]
    by_cases hs : b = slash <;> simp [hz, hs]

/-- The opened name stays below the web directory exactly when the path is empty or starts with a
slash or a NUL byte. -/
theorem defaultGet_confined_iff {path : Bytes}
    (h : path.take flowNoPrefix.length ≠ flowNoPrefix) :
    ∃ name, defaultGet path = some (.file name) ∧
      (Confined name ↔ path = [] ∨ path.head? = some slash ∨ path.head? = some 0) := by
  refine ⟨cString (fileName (path.destutter (NotBoth dot))), ?_, ?_⟩
  · rw [defaultGet, if_neg h, eraseDots_eq (Nat.lt_succ_self _)]
    rfl
  · obtain ⟨tail, hname, htail⟩ := fileName_eq (path.destutter (NotBoth dot))
    rw [head?_destutter] at htail
    rw [Confined, and_iff_left (dotdot_not_mem_components path), hname, head?_components htail]
    cases path <;> simp

/-- The criterion applied to a path that tries to leave the directory. -/
theorem defaultGet_confined_iff_up :
    ∃ name, defaultGet (ascii "/../note") = some (.file name) ∧
      (Confined name ↔ ascii "/../note" = [] ∨ (ascii "/../note").head? = some slash ∨
        (ascii "/../note").head? = some 0) :=
  defaultGet_confined_iff (by decide)

theorem get_sp : sp ∉ ascii "GET" := by decide

theorem get_lf : lf ∉ ascii "GET" := by decide

/-- A request for a path, without fields. -/
def getMessage (path : Bytes) (hsp : sp ∉ path) (hlf : lf ∉ path) : Message where
  method := ascii "GET"
  path := path
  version := ascii "1.1"
  fields := []
  method_sp := get_sp
  method_lf := get_lf
  path_sp := hsp
  path_lf := hlf
  version_lf := one_one_lf

/-- A request whose path does not start with a slash opens a file next to the web directory. -/
theorem defaultGet_not_confined :
    ¬ ∀ buf r, parseRequest (.new buf) = some (.ok r) → r.method = ascii "GET" →
      r.path.take flowNoPrefix.length ≠ flowNoPrefix →
      ∀ name, defaultGet r.path = some (.file name) → Confined name := by
  intro h
  have hparse := (getMessage (ascii "foo") (by decide) (by decide)).parseRequest_encode []
  have hopen : defaultGet (ascii "foo") = some (.file (ascii "webfoo/index.html")) := by decide
  have hfirst := (h _ _ hparse rfl (by decide) _ hopen).1
  rw [head?_splitOn] at hfirst
  exact absurd hfirst (by decide)

end AsioCoroFrame.Http
