import AsioCoroFrame.Core.Text

/-!
# The words of a shell command line

The token rules of the POSIX shell, for lines that are one simple command
without expansions: blanks separate words, quotes and backslashes are removed,
and a `#` at the start of a word begins a comment. A line with an operator, an
expansion or a pattern has no words of its own here. Quoting only ever loses
bytes, so a line whose words are as long as the line was written without it.
-/

namespace AsioCoroFrame.Shell

/-- How the next byte is read. -/
inductive Mode where
  | unquoted
  /-- After a backslash outside of quotes. -/
  | escape
  /-- Inside single quotes. -/
  | single
  /-- Inside double quotes. -/
  | double
  /-- After a backslash inside double quotes. -/
  | doubleEscape
  deriving DecidableEq, Repr

/-- Space and tab. -/
def isBlank (b : Byte) : Bool := b ∈ ([32, 9] : Bytes)

/-- The bytes of the operators, and the line feed, which ends a command. -/
def isOperator (b : Byte) : Bool := b ∈ ascii "|&;<>()\n"

/-- The bytes that begin an expansion or belong to a pattern. -/
def isExpansion (b : Byte) : Bool := b ∈ ascii "$`*?["

/-- The quote characters. -/
def isQuote (b : Byte) : Bool := b ∈ ascii "\\'\""

theorem isQuote_eq_true {b : Byte} : isQuote b = true ↔ b = 92 ∨ b = 39 ∨ b = 34 := by
  rw [isQuote, show ascii "\\'\"" = [92, 39, 34] from rfl]
  simp

/-- The number sign, special at the start of a word only. -/
def hash : Byte := 35

/-- The tilde, special at the start of a word only. -/
def tilde : Byte := 126

/-- Append a byte to the current word, which it may begin. -/
def push (cur : Option Bytes) (b : Byte) : Bytes := cur.getD [] ++ [b]

/-- The words of a line; `none` when it is no single simple command of plain words. The current
word is `none` between two words. -/
def scan : Mode → Option Bytes → Bytes → Option (List Bytes)
  | mode, cur, [] => if mode = .unquoted then some cur.toList else none
  | .unquoted, cur, b :: s =>
    if isBlank b then (scan .unquoted none s).map (cur.toList ++ ·)
    else if isOperator b || isExpansion b then none
    else if b = hash ∧ cur = none then if lf ∈ s then none else some []
    else if b = tilde ∧ cur = none then none
    else if b = 92 then scan .escape cur s
    else if b = 39 then scan .single (some (cur.getD [])) s
    else if b = 34 then scan .double (some (cur.getD [])) s
    else scan .unquoted (push cur b) s
  | .escape, cur, b :: s =>
    if b = lf then scan .unquoted cur s else scan .unquoted (push cur b) s
  | .single, cur, b :: s =>
    if b = 39 then scan .unquoted cur s else scan .single (push cur b) s
  | .double, cur, b :: s =>
    if b = 34 then scan .unquoted cur s
    else if b ∈ ascii "$`" then none
    else if b = 92 then scan .doubleEscape cur s
    else scan .double (push cur b) s
  | .doubleEscape, cur, b :: s =>
    if b = lf then scan .double cur s
    else if b ∈ ascii "$`\"\\" then scan .double (push cur b) s
    else scan .double (push cur 92 ++ [b]) s

/-- The words that begin a compound command. -/
def reserved : List Bytes :=
  [ascii "!", ascii "\x7b", ascii "\x7d", ascii "case", ascii "do", ascii "done", ascii "elif",
    ascii "else", ascii "esac", ascii "fi", ascii "for", ascii "if", ascii "in", ascii "then",
    ascii "until", ascii "while"]

/-- A first word that names a command: neither reserved nor an assignment. -/
def namesCommand (w : Bytes) : Bool := w ∉ reserved && (61 : Byte) ∉ w

/-- The command name and the arguments of a line that is one simple command. -/
def simpleCommand (line : Bytes) : Option (List Bytes) :=
  match scan .unquoted none line with
  | some (w :: ws) => if namesCommand w then some (w :: ws) else none
  | _ => none

/-! ## Plain words -/

/-- A byte without a meaning of its own to the shell. -/
def ordinary (b : Byte) : Bool := !(isBlank b || isOperator b || isExpansion b || isQuote b)

/-- A word that the shell takes as it is. -/
def Plain (w : Bytes) : Prop :=
  w ≠ [] ∧ w.all ordinary = true ∧ w.head? ≠ some hash ∧ w.head? ≠ some tilde

instance : DecidablePred Plain := fun _ => inferInstanceAs (Decidable (_ ∧ _))

/-- A line made of words with one space after each but the last. -/
def joined (ws : List Bytes) : Bytes := [(32 : Byte)].intercalate ws

/-- The bytes of words, counting one more for each. -/
def total : List Bytes → Nat
  | [] => 0
  | w :: ws => w.length + 1 + total ws

/-- What a line may still add up to, when nothing of it is lost. -/
def room (cur : Option Bytes) (s : Bytes) : Nat := (cur.getD []).length + 1 + s.length

@[simp] theorem total_nil : total [] = 0 := rfl

@[simp] theorem total_cons (w : Bytes) (ws : List Bytes) :
    total (w :: ws) = w.length + 1 + total ws := rfl

@[simp] theorem total_append (ws ws' : List Bytes) : total (ws ++ ws') = total ws + total ws' := by
  induction ws with
  | nil => simp
  | cons w ws ih => simp [ih, Nat.add_assoc]

@[simp] theorem room_push (cur : Option Bytes) (b : Byte) (s : Bytes) :
    room (some (push cur b)) s = room cur s + 1 := by
  simp only [room, push, Option.getD_some, List.length_append, List.length_singleton]
  omega

@[simp] theorem room_cons (cur : Option Bytes) (b : Byte) (s : Bytes) :
    room cur (b :: s) = room cur s + 1 := by
  simp only [room, List.length_cons]
  omega

/-- Inside of quotes, the closing one is still to be lost. -/
def lost : Mode → Nat
  | .single | .double => 1
  | .unquoted | .escape | .doubleEscape => 0

theorem total_toList_le (cur : Option Bytes) (s : Bytes) :
    total cur.toList + s.length ≤ room cur s := by
  cases cur <;> simp [total, room]

/-- Outside of quotes a byte ends a word, begins a comment, begins a quotation or is taken as it
is. -/
theorem scan_unquoted_cases {cur : Option Bytes} {b : Byte} {s : Bytes} {ws : List Bytes}
    (h : scan .unquoted cur (b :: s) = some ws) :
    (∃ ws', scan .unquoted none s = some ws' ∧ ws = cur.toList ++ ws') ∨
    ws = [] ∨
    (∃ mode cur', scan mode cur' s = some ws ∧ room cur' s = room cur s) ∨
    (scan .unquoted (push cur b) s = some ws ∧ ordinary b = true ∧ ¬ (b = hash ∧ cur = none) ∧
      ¬ (b = tilde ∧ cur = none)) := by
  simp only [scan] at h
  split_ifs at h with hb ho hh hl ht he hs hd
  · obtain ⟨ws', h', rfl⟩ := Option.map_eq_some_iff.1 h
    exact Or.inl ⟨ws', h', rfl⟩
  · exact Or.inr (Or.inl (Option.some.inj h).symm)
  · exact Or.inr (Or.inr (Or.inl ⟨_, _, h, rfl⟩))
  · exact Or.inr (Or.inr (Or.inl ⟨_, _, h, rfl⟩))
  · exact Or.inr (Or.inr (Or.inl ⟨_, _, h, rfl⟩))
  · have hq : isQuote b = false := by simpa [he, hs, hd] using isQuote_eq_true (b := b)
    refine Or.inr (Or.inr (Or.inr ⟨h, ?_, hh, ht⟩))
    simp_all [ordinary]

/-- Inside of quotes a byte adds at most what it takes up of the line, and two quote characters
are lost. -/
theorem scan_quoted_cases {mode : Mode} {cur : Option Bytes} {b : Byte} {s : Bytes}
    {ws : List Bytes} (hm : mode ≠ .unquoted) (h : scan mode cur (b :: s) = some ws) :
    ∃ mode' cur', scan mode' cur' s = some ws ∧
      room cur' s + lost mode ≤ room cur s + 1 + lost mode' := by
  have hpush := room_push cur b s
  have hpush₂ : room (some (push cur 92 ++ [b])) s = room cur s + 2 := by
    simp only [room, push, Option.getD_some, List.length_append, List.length_singleton]
    omega
  cases mode with
  | unquoted => exact absurd rfl hm
  | escape =>
    simp only [scan] at h
    split_ifs at h
    · exact ⟨_, _, h, by simp [lost]⟩
    · exact ⟨_, _, h, by simp [lost]⟩
  | single =>
    simp only [scan] at h
    split_ifs at h
    · exact ⟨_, _, h, by simp [lost]⟩
    · exact ⟨_, _, h, by simp [lost]⟩
  | double =>
    simp only [scan] at h
    split_ifs at h
    · exact ⟨_, _, h, by simp [lost]⟩
    · exact ⟨_, _, h, by simp [lost]⟩
    · exact ⟨_, _, h, by simp [lost]⟩
  | doubleEscape =>
    simp only [scan] at h
    split_ifs at h
    · exact ⟨_, _, h, by simp [lost]; omega⟩
    · exact ⟨_, _, h, by simp [lost]⟩
    · exact ⟨_, _, h, by simp [lost, hpush₂]⟩

/-- The words of a line are never longer than the line. -/
theorem total_le {mode : Mode} {cur : Option Bytes} {s : Bytes} {ws : List Bytes}
    (h : scan mode cur s = some ws) : total ws + lost mode ≤ room cur s := by
  induction s generalizing mode cur ws with
  | nil =>
    rw [scan.eq_def] at h
    simp only [Option.ite_none_right_eq_some, Option.some.injEq] at h
    obtain ⟨rfl, rfl⟩ := h
    exact total_toList_le cur []
  | cons b s ih =>
    rw [room_cons]
    by_cases hm : mode = .unquoted
    · subst hm
      obtain ⟨ws', h', rfl⟩ | rfl | ⟨mode, cur', h', hroom⟩ | ⟨h', _⟩ := scan_unquoted_cases h
      · have hle := ih h'
        have hcur := total_toList_le cur s
        rw [total_append]
        cases cur <;> simp [total, room, lost] at hle hcur ⊢ <;> omega
      · simp [lost]
      · have hle := ih h'
        simp only [lost]
        omega
      · have hle := ih h'
        rwa [room_push] at hle
    · obtain ⟨mode', cur', h', hroom⟩ := scan_quoted_cases hm h
      have hle := ih h'
      omega

/-- A byte that the scan takes for itself begins or continues a plain word. -/
theorem plain_push {cur : Option Bytes} {b : Byte} (hcur : ∀ c, cur = some c → Plain c)
    (hb : ordinary b = true) (hh : ¬ (b = hash ∧ cur = none)) (ht : ¬ (b = tilde ∧ cur = none)) :
    Plain (push cur b) := by
  cases cur with
  | none =>
    refine ⟨by simp [push], ?_, ?_, ?_⟩
    · simpa [push] using hb
    · simpa [push] using hh
    · simpa [push] using ht
  | some c =>
    obtain ⟨hne, hall, hhash, htilde⟩ := hcur c rfl
    obtain ⟨a, c, rfl⟩ := List.exists_cons_of_ne_nil hne
    refine ⟨by simp [push], ?_, by simpa [push] using hhash, by simpa [push] using htilde⟩
    rw [push, List.all_append, Option.getD_some, hall]
    simpa using hb

/-- A line that loses nothing is made of plain words. -/
theorem plain_of_total_eq {cur : Option Bytes} {s : Bytes} {ws : List Bytes}
    (hcur : ∀ c, cur = some c → Plain c) (h : scan .unquoted cur s = some ws)
    (heq : total ws = room cur s) : ∀ w ∈ ws, Plain w := by
  induction s generalizing cur ws with
  | nil =>
    simp only [scan, if_true, Option.some.injEq] at h
    subst h
    simpa using hcur
  | cons b s ih =>
    rw [room_cons] at heq
    obtain ⟨ws', h', rfl⟩ | rfl | ⟨mode, cur', h', hroom⟩ | ⟨h', hb, hh, ht⟩ :=
      scan_unquoted_cases h
    · have hle := total_le h'
      cases cur with
      | none =>
        simp only [Option.toList_none, List.nil_append, lost] at heq hle
        omega
      | some c =>
        have hws : total ws' = room none s := by
          simp only [total_append, total_cons, total_nil, room, lost, Option.toList_some,
            Option.getD_some, Option.getD_none, List.length_nil] at heq hle ⊢
          omega
        intro w hw
        rcases List.mem_cons.1 hw with rfl | hw
        · exact hcur _ rfl
        · exact ih (by simp) h' hws w hw
    · simp [room] at heq
    · have hle := total_le h'
      omega
    · apply ih _ h' (by rwa [room_push])
      rintro _ ⟨⟩
      exact plain_push hcur hb hh ht

/-- The room of a line of words is what the words fill. -/
theorem room_joined {ws : List Bytes} (hne : ws ≠ []) : room none (joined ws) = total ws := by
  induction ws with
  | nil => exact absurd rfl hne
  | cons w ws ih =>
    cases ws with
    | nil => simp [room, joined, Nat.add_comm]
    | cons w' ws =>
      have := ih (by simp)
      simp only [room, joined, total_cons, List.intercalate_cons_cons, List.length_append,
        List.length_singleton, Option.getD_none, List.length_nil] at this ⊢
      omega

/-- An ordinary byte is read into the current word. -/
theorem scan_ordinary {cur : Option Bytes} {b : Byte} (s : Bytes) (hb : ordinary b = true)
    (hh : ¬ (b = hash ∧ cur = none)) (ht : ¬ (b = tilde ∧ cur = none)) :
    scan .unquoted cur (b :: s) = scan .unquoted (push cur b) s := by
  simp only [ordinary, Bool.not_eq_eq_eq_not, Bool.not_true, Bool.or_eq_false_iff] at hb
  obtain ⟨⟨⟨hb, ho⟩, he⟩, hq⟩ := hb
  obtain ⟨h92, h39, h34⟩ : b ≠ 92 ∧ b ≠ 39 ∧ b ≠ 34 := by
    rw [← not_or, ← not_or, ← isQuote_eq_true, hq]
    exact Bool.false_ne_true
  simp [scan, hb, ho, he, hh, ht, h92, h39, h34]

/-- Ordinary bytes continue the current word. -/
theorem scan_append (c : Bytes) {w : Bytes} (s : Bytes) (hw : ∀ b ∈ w, ordinary b = true) :
    scan .unquoted (some c) (w ++ s) = scan .unquoted (some (c ++ w)) s := by
  induction w generalizing c with
  | nil => simp
  | cons b w ih =>
    rw [List.cons_append, scan_ordinary _ (hw b (by simp)) (by simp) (by simp),
      show push (some c) b = c ++ [b] from rfl, ih _ fun x hx => hw x (by simp [hx])]
    simp

/-- A plain word is read off the front of a line. -/
theorem scan_plain {w : Bytes} (s : Bytes) (hw : Plain w) :
    scan .unquoted none (w ++ s) = scan .unquoted (some w) s := by
  obtain ⟨hne, hall, hhash, htilde⟩ := hw
  rw [List.all_eq_true] at hall
  obtain ⟨b, w, rfl⟩ := List.exists_cons_of_ne_nil hne
  rw [List.cons_append, scan_ordinary _ (hall b (by simp)) (by simpa using hhash)
    (by simpa using htilde), show push none b = [b] from rfl,
    scan_append _ _ fun x hx => hall x (by simp [hx])]
  simp

/-- A line of plain words has these words. -/
theorem scan_joined {ws : List Bytes} (hws : ∀ w ∈ ws, Plain w) :
    scan .unquoted none (joined ws) = some ws := by
  induction ws with
  | nil => rfl
  | cons w ws ih =>
    have hw := hws w (by simp)
    cases ws with
    | nil =>
      have := scan_plain [] hw
      simpa [joined, scan] using this
    | cons w' ws =>
      have := ih fun x hx => hws x (by simp [hx])
      rw [joined, List.intercalate_cons_cons, List.append_assoc, scan_plain _ hw]
      simp_all [scan, joined, isBlank]

/-- The words of a prefix of the line made of them. -/
theorem plain_of_scan_prefix {ws : List Bytes} {t : Bytes} (hne : ws ≠ [])
    (ht : t <+: joined ws) (h : scan .unquoted none t = some ws) :
    t = joined ws ∧ ∀ w ∈ ws, Plain w := by
  have hle := total_le h
  have hroom := room_joined hne
  have hlen := ht.length_le
  simp only [lost, room, Option.getD_none, List.length_nil] at hle hroom
  have heq : t = joined ws := ht.eq_of_length (by omega)
  subst heq
  refine ⟨rfl, plain_of_total_eq (by simp) h ?_⟩
  rw [room_joined hne]

theorem simpleCommand_eq_some {line w : Bytes} {ws : List Bytes} :
    simpleCommand line = some (w :: ws) ↔
      scan .unquoted none line = some (w :: ws) ∧ namesCommand w = true := by
  unfold simpleCommand
  cases h : scan .unquoted none line with
  | none => simp
  | some l =>
    cases l with
    | nil => simp
    | cons w' ws' =>
      by_cases hw : namesCommand w' = true
      · simp only [hw, if_true, Option.some.injEq, List.cons.injEq]
        constructor
        · rintro ⟨rfl, rfl⟩
          exact ⟨⟨rfl, rfl⟩, hw⟩
        · exact And.left
      · simp only [if_neg hw, reduceCtorEq, Option.some.injEq, List.cons.injEq, false_iff]
        rintro ⟨⟨rfl, rfl⟩, h⟩
        exact hw h

/-- A command and its arguments written one after the other, perhaps cut short, are read back
exactly when nothing was cut off and every one of them is a plain word. -/
theorem simpleCommand_prefix {w t : Bytes} {ws : List Bytes} (hw : namesCommand w = true)
    (ht : t <+: joined (w :: ws)) :
    simpleCommand t = some (w :: ws) ↔ t = joined (w :: ws) ∧ ∀ x ∈ w :: ws, Plain x := by
  rw [simpleCommand_eq_some]
  constructor
  · rintro ⟨h, _⟩
    exact plain_of_scan_prefix (by simp) ht h
  · rintro ⟨rfl, h⟩
    exact ⟨scan_joined h, hw⟩

end AsioCoroFrame.Shell
