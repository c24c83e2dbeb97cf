import AsioCoroFrame.Models.Http.Connection

/-!
# When a request body reaches the handler unchanged

The bytes of a body that arrive together with the header go through the logging
block, which moves the first line to the end and loses its line feed. The bytes
read afterwards are appended to what the block has left.
-/

namespace AsioCoroFrame.Http

/-- Logging leaves a buffer as it was exactly when the buffer holds no line feed. -/
theorem relog_eq_self {buf : Bytes} : relog buf = buf ↔ lf ∉ buf := by
  unfold relog
  cases h : cut lf buf with
  | none => simpa using cut_eq_none.mp h
  | some p =>
    obtain ⟨line, rest⟩ := p
    obtain ⟨rfl, _⟩ := cut_eq_some.mp h
    simp only [List.mem_append, List.mem_cons, true_or, or_true, not_true_eq_false, iff_false]
    intro he
    have := congrArg List.length he
    simp only [List.length_append, List.length_cons] at this
    omega

/-- The content handed to `find_resource` is the body exactly when the part of the body that
arrived with the header holds no line feed. -/
theorem content_eq_body_iff (m : Message) {body text tail : Bytes} {k : Nat} {socket rest : Socket}
    (htext : m.table contentLengthName = some text) (hlen : stoull text 10 = .ok body.length)
    (hk : k ≤ body.length)
    (hread : readUntil [] socket = some (m.encode ++ body.take k, m.encode.length, rest))
    (hrest : rest.flatten = body.drop k ++ tail) :
    ∃ request rest',
      readRequestAndContent socket = .handed (m.encode ++ body.take k) request rest' ∧
      rest'.flatten = tail ∧ (request.content.buf = body ↔ lf ∉ body.take k) := by
  have hhandler := m.headerHandler_encode (body.take k)
  simp only [htext, hlen, Except.map, List.length_take, Nat.min_eq_left hk,
    sizeSub_of_le hk] at hhandler
  have hdrop : (body.drop k).length = body.length - k := List.length_drop
  have henough : body.length - k ≤ rest.flatten.length := by
    rw [hrest, List.length_append]
    omega
  obtain ⟨rest', htransfer, hflat⟩ := transferExactly_eq_some henough
  rw [hrest, List.take_left' hdrop] at htransfer
  rw [hrest, List.drop_left' hdrop] at hflat
  refine ⟨(m.request (relog (body.take k))).append (body.drop k), rest', ?_, hflat, ?_⟩
  · simp only [readRequestAndContent, hread, hhandler, htransfer]
  · have hcontent : ((m.request (relog (body.take k))).append (body.drop k)).content.buf =
        relog (body.take k) ++ body.drop k := rfl
    rw [hcontent, ← relog_eq_self]
    constructor
    · intro h
      exact List.append_cancel_right (h.trans (List.take_append_drop k body).symm)
    · intro h
      rw [h, List.take_append_drop]

/-- A request that announces three bytes. -/
def samplePost : Message where
  method := ascii "POST"
  path := ascii "/"
  version := ascii "1.1"
  fields := [⟨contentLengthName, true, ascii "3", contentLengthName_colon, contentLengthName_lf,
    by decide, fun _ => rfl⟩]
  method_sp := by decide
  method_lf := by decide
  path_sp := root_sp
  path_lf := root_lf
  version_lf := one_one_lf

/-- The criterion applied to a body that arrives in two parts, its line feed in the second. -/
theorem content_eq_body_iff_split :
    ∃ request rest', readRequestAndContent [samplePost.encode ++ ascii "a", ascii "b\n"] =
        .handed (samplePost.encode ++ ascii "a") request rest' ∧ rest'.flatten = [] ∧
      (request.content.buf = ascii "ab\n" ↔ lf ∉ ascii "a") :=
  @content_eq_body_iff samplePost (ascii "ab\n") (ascii "3") [] 1 _ _ rfl rfl (by decide) rfl rfl

/-- A body that arrives with the header loses its line feed and is reordered. -/
theorem content_reordered :
    ∃ request rest', readRequestAndContent [samplePost.encode ++ ascii "a\nb"] =
        .handed (samplePost.encode ++ ascii "a\nb") request rest' ∧
      request.content.buf = ascii "ba" :=
  ⟨_, _, rfl, by decide⟩

end AsioCoroFrame.Http
