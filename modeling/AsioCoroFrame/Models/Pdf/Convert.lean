import AsioCoroFrame.Core.Numeral
import AsioCoroFrame.Core.Shell
import AsioCoroFrame.Models.Cluster.Reply

/-!
# The conversion endpoint

The endpoint reads two paths from a JSON document, writes them unquoted into a
shell command and answers `ok` when the shell terminated normally, whatever its
exit status. The answer is right exactly when the paths are plain words and the
converter succeeded, or when nothing was converted and the answer says so.
-/

namespace AsioCoroFrame.Pdf

open Cluster (cString)
open Shell (simpleCommand namesCommand joined Plain)

/-! ## Reading the request -/

/-- What the server hands over of a request. -/
structure Request where
  /-- The parameter `CONTENT_LENGTH`, when there is one. -/
  contentLength : Option Bytes
  /-- What `request.in` delivers. -/
  body : Bytes
  deriving DecidableEq, Repr

/-- `boost::lexical_cast<int>`: an optional sign and digits, with nothing around them. -/
def lexicalCast (s : Bytes) : Option Int :=
  let (neg, ds) := scanSign s
  let v : Int := if neg then -(digitsValue 10 ds : Int) else digitsValue 10 ds
  if ds = [] ∨ ¬ ds.all (isDigit 10) ∨ v < -2 ^ 31 ∨ 2 ^ 31 ≤ v then none else some v

/-- `m_content` after `get_request_content`, or `none` when it raises. The buffer is not cleared
and not terminated: `memory` is what lies there and behind it. -/
def getRequestContent (request : Request) (memory : Bytes) : Option Bytes :=
  match request.contentLength with
  | none => none
  | some text =>
    match if text = [] then some 0 else lexicalCast text with
    | none => none
    | some n =>
      if n < 0 then none
      else
        let delivered := request.body.take n.toNat
        some (cString (delivered ++ memory.drop delivered.length))

/-- A parsed document, as far as the endpoint looks at it. -/
inductive Json where
  /-- The members of an object, each name once. -/
  | object (members : List (Bytes × Json))
  | string (value : Bytes)
  /-- Null, a boolean, a number or an array. -/
  | other

/-- The ways in which the request leaves the two paths undetermined. -/
inductive Fault where
  /-- An exception, which `run` catches. -/
  | raised
  /-- The constant `operator[]` on a member that is missing. -/
  | undefined
  deriving DecidableEq, Repr

/-- `j[key]` on a constant value. -/
def Json.get (j : Json) (key : Bytes) : Except Fault Json :=
  match j with
  | .object members =>
    match members.lookup key with
    | some v => .ok v
    | none => .error .undefined
  | .string _ | .other => .error .raised

/-- The conversion of a value to `std::string`. -/
def Json.getString : Json → Except Fault Bytes
  | .string s => .ok s
  | .object _ | .other => .error .raised

/-- The members `src` and `dst` of a text, as the arguments of `do_convert`. -/
def paths (parse : Bytes → Option Json) (text : Bytes) : Except Fault (Bytes × Bytes) :=
  match parse text with
  | none => .error .raised
  | some j => do
    let src ← j.get (ascii "src")
    let dst ← j.get (ascii "dst")
    return (← src.getString, ← dst.getString)

/-! ## Running the converter -/

/-- `WIFEXITED`: the process terminated normally. -/
def wifexited (status : BitVec 32) : Bool := status &&& 0x7f = 0

/-- `WEXITSTATUS`. -/
def wexitstatus (status : BitVec 32) : Nat := ((status &&& 0xff00) >>> 8).toNat

/-- The path of the converter. -/
def converter : Bytes := ascii "/usr/local/wkhtmltox/bin/wkhtmltopdf"

/-- What a request did. -/
structure Outcome where
  /-- The text that reached `system()`, when it was called. -/
  command : Option Bytes
  /-- `m_response` as written, unless the behaviour is undefined. -/
  response : Option Bytes
  deriving DecidableEq, Repr

/-- `pdf_impl::convert`: the text handed to the shell and the result. -/
def convert (src dst : Bytes) (status : BitVec 32) : Bytes × Bool :=
  let cmdstring := ascii "/usr/local/wkhtmltox/bin/wkhtmltopdf " ++ src ++ ascii " " ++ dst
  (cString cmdstring, wifexited status)

/-- `do_convert`. -/
def doConvert (src dst : Bytes) (status : BitVec 32) : Outcome :=
  let (command, success) := convert src dst status
  ⟨some command, some (if success then ascii "ok" else ascii "failed")⟩

/-- `pdf_api::run`, when `system()` returns the given wait status. -/
def run (parse : Bytes → Option Json) (request : Request) (memory : Bytes)
    (status : BitVec 32) : Outcome :=
  match getRequestContent request memory with
  | none => ⟨none, some (ascii "failed")⟩
  | some content =>
    match paths parse content with
    | .error .raised => ⟨none, some (ascii "failed")⟩
    | .error .undefined => ⟨none, none⟩
    | .ok (src, dst) => doConvert src dst status

/-! ## Telling the truth -/

variable (parse : Bytes → Option Json) (request : Request) (memory : Bytes) (status : BitVec 32)

/-- The text read names two paths, and the converter was run on them and succeeded. -/
def Converted : Prop :=
  ∃ content src dst, getRequestContent request memory = some content ∧
    paths parse content = .ok (src, dst) ∧
    (∃ line, (run parse request memory status).command = some line ∧
      simpleCommand line = some [converter, src, dst]) ∧
    wifexited status = true ∧ wexitstatus status = 0

/-- `ok` is only said after a conversion, and `failed` whenever there was none. -/
def Truthful : Prop :=
  ((run parse request memory status).response = some (ascii "ok") →
    Converted parse request memory status) ∧
  (¬ Converted parse request memory status →
    (run parse request memory status).response = some (ascii "failed"))

/-- The requests and wait statuses for which the answer is right: no member is missing, and where
both are strings and the shell terminated normally, they are plain words and the exit status is
zero. -/
def AnsweredRight : Prop :=
  match getRequestContent request memory with
  | none => True
  | some content =>
    match paths parse content with
    | .error .raised => True
    | .error .undefined => False
    | .ok (src, dst) => wifexited status = true →
      wexitstatus status = 0 ∧ Plain src ∧ Plain dst ∧ (0 : Byte) ∉ src ∧ (0 : Byte) ∉ dst

variable {parse request memory status}

theorem convert_fst (src dst : Bytes) (status : BitVec 32) :
    (convert src dst status).1 = cString (joined [converter, src, dst]) := by
  have h : ascii "/usr/local/wkhtmltox/bin/wkhtmltopdf " = converter ++ [32] := by decide
  simp only [convert, h, joined, List.intercalate_cons_cons, List.intercalate_singleton,
    List.append_assoc]
  rfl

/-- The shell runs the converter on the two paths when they are plain words, and only then. -/
theorem simpleCommand_convert (src dst : Bytes) (status : BitVec 32) :
    simpleCommand (convert src dst status).1 = some [converter, src, dst] ↔
      Plain src ∧ Plain dst ∧ (0 : Byte) ∉ src ∧ (0 : Byte) ∉ dst := by
  have hname : namesCommand converter = true := by decide
  have hplain : Plain converter := by decide
  have hnul : (0 : Byte) ∉ converter := by decide
  rw [convert_fst, Shell.simpleCommand_prefix hname (Cluster.cString_prefix _),
    Cluster.cString_eq_self]
  have hline : (0 : Byte) ∉ joined [converter, src, dst] ↔ (0 : Byte) ∉ src ∧ (0 : Byte) ∉ dst := by
    simp [joined, List.intercalate_cons_cons, hnul]
  rw [hline, List.forall_mem_cons, List.forall_mem_cons, List.forall_mem_singleton]
  constructor
  · rintro ⟨⟨hsrc, hdst⟩, _, hs, hd⟩
    exact ⟨hs, hd, hsrc, hdst⟩
  · rintro ⟨hs, hd, hsrc, hdst⟩
    exact ⟨⟨hsrc, hdst⟩, hplain, hs, hd⟩

theorem ok_ne_failed : ascii "ok" ≠ ascii "failed" := by decide

/-- The answer to two paths depends on how the shell terminated, and on nothing else. -/
theorem doConvert_response (src dst : Bytes) :
    (doConvert src dst status).response =
      some (if wifexited status = true then ascii "ok" else ascii "failed") := rfl

theorem run_of_paths {content src dst : Bytes}
    (hc : getRequestContent request memory = some content)
    (hp : paths parse content = .ok (src, dst)) :
    run parse request memory status = doConvert src dst status := by
  simp only [run, hc, hp]

/-- What a conversion takes, once the two paths are known. -/
theorem converted_iff {content src dst : Bytes}
    (hc : getRequestContent request memory = some content)
    (hp : paths parse content = .ok (src, dst)) :
    Converted parse request memory status ↔
      (Plain src ∧ Plain dst ∧ (0 : Byte) ∉ src ∧ (0 : Byte) ∉ dst) ∧
        wifexited status = true ∧ wexitstatus status = 0 := by
  rw [← simpleCommand_convert src dst status]
  constructor
  · rintro ⟨content', src', dst', hc', hp', ⟨line, hline, hwords⟩, hstatus⟩
    obtain rfl := Option.some.inj (hc.symm.trans hc')
    obtain ⟨rfl, rfl⟩ := Prod.mk.inj (Except.ok.inj (hp.symm.trans hp'))
    rw [run_of_paths hc hp] at hline
    obtain rfl := Option.some.inj hline
    exact ⟨hwords, hstatus⟩
  · rintro ⟨hwords, hstatus⟩
    refine ⟨content, src, dst, hc, hp, ⟨_, ?_, hwords⟩, hstatus⟩
    rw [run_of_paths hc hp]
    rfl

/-- Without two paths nothing is converted. -/
theorem not_converted {content : Bytes} {e : Fault}
    (hc : getRequestContent request memory = some content)
    (hp : paths parse content = .error e) : ¬ Converted parse request memory status := by
  rintro ⟨content', src, dst, hc', hp', _⟩
  obtain rfl := Option.some.inj (hc.symm.trans hc')
  cases hp.symm.trans hp'

/-- A request for the conversion of `a.html` to `a.pdf`. -/
def sampleRequest : Request where
  contentLength := some (ascii "30")
  body := ascii "\x7b\"src\":\"a.html\",\"dst\":\"a.pdf\"\x7d"

/-- Its document. -/
def sampleDocument : Json :=
  .object [(ascii "dst", .string (ascii "a.pdf")), (ascii "src", .string (ascii "a.html"))]

end AsioCoroFrame.Pdf
