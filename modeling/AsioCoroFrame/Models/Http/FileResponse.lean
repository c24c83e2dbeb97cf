import AsioCoroFrame.Models.Http.ClientResponse
import AsioCoroFrame.Models.Http.Response
import AsioCoroFrame.Models.Http.StaticFile

/-!
# Serving a file

The default `GET` handler announces the length of the file it has opened and
copies the content to the response: a small file in one piece, a large one in
blocks that are flushed one by one. The loop over the blocks ends at the first
read that stores nothing; both ways put the same bytes on the connection.
-/

namespace AsioCoroFrame.Http

open Cluster (cString)

/-- `buffer_size`. -/
def bufferSize : Nat := 131072

/-- Several insertions into the stream of a response. -/
def Response.writes (r : Response) (parts : List Bytes) : Response := parts.foldl Response.write r

/-- `response << ifs.rdbuf()`: all that is left of the file; inserting nothing sets `failbit`. -/
def Response.insertFile (r : Response) (ifs : IStream) : Response :=
  if r.fail then r
  else if ifs.buf = [] then { r with fail := true }
  else { r with streambuf := r.streambuf ++ ifs.buf }

/-- The loop over the blocks of a large file; running out of fuel means that it never ends. -/
def copyBlocks : Nat → IStream → Response → Option Response
  | 0, _, _ => none
  | fuel + 1, ifs, r =>
    let (buffer, ifs) := ifs.read bufferSize
    if 0 < buffer.length then copyBlocks fuel ifs (r.write buffer).flush else some r

/-- What the handler does with an open file. Every round but the last stores a byte at least. -/
def serveFile (content : Bytes) (r : Response) : Option Response :=
  let ifs := IStream.over content
  let length := content.length
  let r := r.writes [ascii "HTTP/1.1 200 OK\r\nContent-Length: ", decimal length,
    ascii "\r\n\r\n"]
  if bufferSize < length then copyBlocks (length + 2) ifs r else some (r.insertFile ifs)

/-- `default_resource["GET"]`. `files` is the content of every file that can be opened, and
`flowNumber` what `deal_with_flow_number` does with the response. -/
def getHandler (files : Bytes → Option Bytes) (flowNumber : Response → Response) (path : Bytes)
    (r : Response) : Option Response :=
  if path.take flowNoPrefix.length = flowNoPrefix then some (flowNumber r)
  else (eraseDots (path.length + 1) path).bind fun path =>
    let filename := fileName path
    match files (cString filename) with
    | some content => serveFile content r
    | none =>
      let content := ascii "Could not open file " ++ filename
      some (r.writes [ascii "HTTP/1.1 400 Bad Request\r\nContent-Length: ",
        decimal content.length, ascii "\r\n\r\n", content])

/-- `write_response` with that handler. -/
def respondGet (files : Bytes → Option Bytes) (flowNumber : Response → Response)
    (path : Bytes) : Option Response :=
  (getHandler files flowNumber path .new).map fun r => r.log.asyncFlush

/-! ## Copying -/

/-- A good response to which `s` has been added. -/
def Response.Extends (r r' : Response) (s : Bytes) : Prop :=
  r'.content = r.content ++ s ∧ r'.fail = false

theorem Response.extends_write {r : Response} (hr : r.fail = false) (s : Bytes) :
    r.Extends (r.write s) s := run_content hr (.write s)

theorem Response.extends_flush {r r' : Response} {s : Bytes} (h : r.Extends r' s) :
    r.Extends r'.flush s :=
  ⟨(content_send r').trans h.1, h.2⟩

theorem Response.Extends.trans {r r' r'' : Response} {s t : Bytes} (h : r.Extends r' s)
    (h' : r'.Extends r'' t) : r.Extends r'' (s ++ t) :=
  ⟨by rw [h'.1, h.1, List.append_assoc], h'.2⟩

theorem Response.extends_writes {r : Response} (hr : r.fail = false) (parts : List Bytes) :
    r.Extends (r.writes parts) parts.flatten := by
  induction parts generalizing r with
  | nil => exact ⟨(List.append_nil _).symm, hr⟩
  | cons s parts ih =>
    have hwrite := extends_write hr s
    exact hwrite.trans (ih hwrite.2)

/-- A full block leaves the rest of the file. -/
theorem read_full {s : Bytes} (h : bufferSize ≤ s.length) :
    (IStream.over s).read bufferSize = (s.take bufferSize, .over (s.drop bufferSize)) := by
  rw [IStream.read, if_neg (by simp [IStream.over])]
  exact if_pos h

/-- A short read stores what is left and ends the stream. -/
theorem read_short {s : Bytes} (h : ¬ bufferSize ≤ s.length) :
    (IStream.over s).read bufferSize = (s, ⟨[], true, true⟩) := by
  rw [IStream.read, if_neg (by simp [IStream.over])]
  exact if_neg h

/-- At the end of the file the loop ends. -/
theorem copyBlocks_end (fuel : Nat) (r : Response) :
    copyBlocks (fuel + 1) ⟨[], true, true⟩ r = some r := by
  simp [copyBlocks, IStream.read]

/-- The blocks of a file are the file, wherever its length stands between two multiples of the
block. -/
theorem copyBlocks_extends {fuel : Nat} {s : Bytes} {r : Response} (hr : r.fail = false)
    (h : s.length + 1 < fuel) : ∃ r', copyBlocks fuel (.over s) r = some r' ∧ r.Extends r' s := by
  have hpos : 0 < bufferSize := by decide
  induction fuel generalizing s r with
  | zero => exact absurd h (Nat.not_lt_zero _)
  | succ fuel ih =>
    by_cases hfull : bufferSize ≤ s.length
    · have hblock : (s.take bufferSize).length = bufferSize := List.length_take_of_le hfull
      have hstep := Response.extends_flush (Response.extends_write hr (s.take bufferSize))
      obtain ⟨r', hr', hext⟩ := ih (s := s.drop bufferSize) hstep.2 (by
        rw [List.length_drop]
        omega)
      refine ⟨r', ?_, ?_⟩
      · simp only [copyBlocks, read_full hfull, hblock, hpos, if_true, hr']
      · have htrans := hstep.trans hext
        rwa [List.take_append_drop] at htrans
    · cases s with
      | nil =>
        refine ⟨r, ?_, (List.append_nil _).symm, hr⟩
        simp only [copyBlocks, read_short hfull, List.length_nil, Nat.lt_irrefl, if_false]
      | cons b s =>
        obtain ⟨fuel, rfl⟩ := Nat.exists_eq_succ_of_ne_zero (n := fuel) (by omega)
        refine ⟨_, ?_, Response.extends_flush (Response.extends_write hr (b :: s))⟩
        rw [copyBlocks, read_short hfull]
        simp only [List.length_cons, Nat.zero_lt_succ, if_true, copyBlocks_end]

/-- A file inserted in one piece is added as it is; only an empty one makes the stream fail. -/
theorem Response.insertFile_content {r : Response} (hr : r.fail = false) (s : Bytes) :
    (r.insertFile (.over s)).content = r.content ++ s := by
  cases s with
  | nil => simp [insertFile, IStream.over, content, hr]
  | cons b s => simp [insertFile, IStream.over, content, hr]

/-- Both ways of copying add the announcement and the content. -/
theorem serveFile_content (content : Bytes) :
    ∃ r, serveFile content .new = some r ∧ r.content = serverResponse (ascii "200 OK") content := by
  have hhead := Response.extends_writes (r := .new) rfl
    [ascii "HTTP/1.1 200 OK\r\nContent-Length: ", decimal content.length, ascii "\r\n\r\n"]
  have hform : serverResponse (ascii "200 OK") content = Response.new.content ++
      [ascii "HTTP/1.1 200 OK\r\nContent-Length: ", decimal content.length,
        ascii "\r\n\r\n"].flatten ++ content := by
    have hmark : ascii "HTTP/1.1 200 OK\r\nContent-Length: " =
        ascii "HTTP/1.1 " ++ ascii "200 OK" ++ crlf ++ ascii "Content-Length: " := by decide
    have hend : ascii "\r\n\r\n" = crlfcrlf := by decide
    simp [serverResponse, hmark, hend, Response.content, Response.new]
  rw [serveFile, hform]
  by_cases hlarge : bufferSize < content.length
  · obtain ⟨r, hr, hext⟩ := copyBlocks_extends hhead.2 (Nat.lt_succ_self (content.length + 1))
    refine ⟨r, by simp only [hlarge, if_true, hr], ?_⟩
    rw [hext.1, hhead.1]
  · refine ⟨_, if_neg hlarge, ?_⟩
    rw [Response.insertFile_content hhead.2, hhead.1]

/-- A path for which the handler opens a file is served from that file. -/
theorem getHandler_of_defaultGet {files : Bytes → Option Bytes} {path name content : Bytes}
    (flowNumber : Response → Response) (r : Response) (h : defaultGet path = some (.file name))
    (hfile : files name = some content) :
    getHandler files flowNumber path r = serveFile content r := by
  rw [defaultGet] at h
  split at h
  · cases h
  · rename_i hpath
    obtain ⟨cleaned, hclean, hname⟩ := Option.map_eq_some_iff.mp h
    obtain rfl : cString (fileName cleaned) = name := by
      cases hname
      rfl
    simp only [getHandler, hpath, if_false, hclean, Option.bind_some, hfile]

/-- Whatever the length of the file, the connection carries its announcement and its content,
byte for byte, and nothing else. -/
theorem respondGet_file {files : Bytes → Option Bytes} {path name content : Bytes}
    (flowNumber : Response → Response) (h : defaultGet path = some (.file name))
    (hfile : files name = some content) :
    ∃ r, respondGet files flowNumber path = some r ∧ r.streambuf = [] ∧
      r.sent.flatten = ascii "HTTP/1.1 200 OK" ++ crlf ++ ascii "Content-Length: " ++
        decimal content.length ++ crlfcrlf ++ content := by
  obtain ⟨r, hr, hcontent⟩ := serveFile_content content
  have hsent : r.log.asyncFlush.content = r.content := by
    rw [Response.asyncFlush, Response.content_send, Response.log_eq]
  have hdrained : r.log.asyncFlush.streambuf = [] := rfl
  have hmark : ascii "HTTP/1.1 200 OK" = ascii "HTTP/1.1 " ++ ascii "200 OK" := by decide
  refine ⟨r.log.asyncFlush, ?_, hdrained, ?_⟩
  · rw [respondGet, getHandler_of_defaultGet flowNumber .new h hfile, hr, Option.map_some]
  · rw [hmark, ← serverResponse, ← hcontent, ← hsent, Response.content, hdrained, List.append_nil]

/-- An empty file. -/
theorem respondGet_file_empty :
    ∃ r, respondGet (fun _ => some []) id (ascii "/empty.txt") = some r ∧ r.streambuf = [] ∧
      r.sent.flatten = ascii "HTTP/1.1 200 OK" ++ crlf ++ ascii "Content-Length: " ++
        decimal ([] : Bytes).length ++ crlfcrlf ++ [] :=
  have hfile : defaultGet (ascii "/empty.txt") = some (.file (ascii "web/empty.txt")) := by decide
  respondGet_file id hfile rfl

end AsioCoroFrame.Http
