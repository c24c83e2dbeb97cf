import AsioCoroFrame.Core.Run
import AsioCoroFrame.Models.Http.Exchange
import AsioCoroFrame.Models.Http.Response
import Mathlib.Data.List.Nodup

/-!
# A client and a server that keeps its connections

The client writes one request at a time and waits for its response. Where reading it
fails, the client marks its socket and connects anew for the next call; what it has
written before may still arrive, and be handled, on the connection it has given up. A
connection carries at most one unanswered request, so a response is never taken for
that of another call.
-/

namespace AsioCoroFrame.Http

/-! ## The two sides -/

/-- How the server deals with a request that it has read. -/
inductive Outcome where
  /-- The handler returns after these operations. -/
  | answered (ops : List ResponseOp)
  /-- The handler raises after these operations. -/
  | threw (ops : List ResponseOp)
  /-- `find_resource` finds no handler. -/
  | unrouted
  deriving DecidableEq

/-- The bytes written to the socket; what a raising handler has not flushed is lost. -/
def Outcome.sent : Outcome → Bytes
  | .answered ops => (writeResponse ops).sent.flatten
  | .threw ops => (ops.foldl Response.run .new).sent.flatten
  | .unrouted => []

/-- Whether another request is read after this one. -/
def Outcome.keeps (request : Request) : Outcome → Bool
  | .answered _ => decide (keepAlive request.httpVersion = .ok true)
  | .threw _ => false
  | .unrouted => false

/-- A connection with the bytes under way in each direction. -/
structure Channel where
  up : Bytes
  down : Bytes
  /-- The server reads from it. -/
  reading : Bool
  /-- The number of the call written last. -/
  call : Nat
  deriving DecidableEq

/-- A new connection. -/
def Channel.new : Channel := ⟨[], [], true, 0⟩

/-- The client writes its call. -/
def Channel.write (ch : Channel) (i : Nat) (c : Call) : Channel :=
  { ch with up := ch.up ++ c.encode, call := i }

/-- The server performs these reads, after which it has a request. -/
def Channel.serve (app : Request → Outcome) (reads : Socket) (ch : Channel) :
    Option (Channel × Request) :=
  if ch.reading ∧ reads.flatten <+: ch.up then
    match readRequestAndContent reads with
    | .handed _ request rest =>
      some ({ ch with
        up := rest.flatten ++ ch.up.drop reads.flatten.length
        down := ch.down ++ (app request).sent
        reading := (app request).keeps request }, request)
    | _ => none
  else none

/-- The state of a client, of the connections it has made and of the server's log. -/
structure Conversation where
  calls : List Call
  /-- The member `socket`. -/
  socket : Option Channel
  /-- The member `socket_error`. -/
  socketError : Bool
  /-- The client is inside `request`. -/
  waiting : Bool
  /-- The connections that the client has given up. -/
  given : List Channel
  /-- The requests handed to `find_resource`, each with the number of the call written last to
  its connection. -/
  handled : List (Nat × Request)
  /-- The responses returned, each with the number of its call. -/
  returned : List (Nat × ClientResponse)

/-- Before the first call. -/
def Conversation.init : Conversation := ⟨[], none, false, false, [], [], []⟩

/-- What can happen next. The connection is the socket of the client or one it has given up. -/
inductive Move where
  | call (c : Call)
  /-- A call that cannot connect. -/
  | refused (c : Call)
  /-- The client performs these reads and returns. -/
  | returns (reads : Socket)
  /-- A read or a write of the client fails. -/
  | raises
  | serve (place : Option Nat) (reads : Socket)
  /-- The server closes a connection. -/
  | close (place : Option Nat)

/-- `connect`: the socket written to and the connections given up. -/
def Conversation.connect (s : Conversation) : Channel × List Channel :=
  match s.socket with
  | none => (.new, s.given)
  | some ch => if s.socketError then (.new, ch :: s.given) else (ch, s.given)

/-- One of the connections. -/
def Conversation.channel (s : Conversation) : Option Nat → Option Channel
  | none => s.socket
  | some i => s.given[i]?

/-- Replace one of the connections. -/
def Conversation.setChannel (s : Conversation) (ch : Channel) (place : Option Nat) :
    Conversation :=
  { s with
    socket := match place with
      | none => some ch
      | some _ => s.socket
    given := match place with
      | none => s.given
      | some i => s.given.set i ch }

/-- One step of the client, the server or the network between them. -/
def Conversation.step (app : Request → Outcome) (s : Conversation) : Move → Option Conversation
  | .call c =>
    if s.waiting then none
    else some { s with
      calls := s.calls ++ [c]
      socket := some (s.connect.1.write s.calls.length c)
      socketError := false
      waiting := true
      given := s.connect.2 }
  | .refused c =>
    if s.waiting ∨ s.socket.isSome ∧ ¬ s.socketError then none
    else some { s with
      calls := s.calls ++ [c]
      socket := none
      socketError := true
      given := s.connect.2 }
  | .returns reads =>
    match s.socket with
    | none => none
    | some ch =>
      if s.waiting ∧ reads.flatten <+: ch.down then
        match receive reads with
        | .returned response _ => some { s with
            socket := some { ch with down := ch.down.drop reads.flatten.length }
            waiting := false
            returned := s.returned ++ [(ch.call, response)] }
        | _ => none
      else none
  | .raises => if s.waiting then some { s with socketError := true, waiting := false } else none
  | .serve place reads =>
    match s.channel place with
    | none => none
    | some ch => (ch.serve app reads).map fun (ch', request) =>
        { s.setChannel ch' place with handled := s.handled ++ [(ch.call, request)] }
  | .close place => (s.channel place).map fun ch => s.setChannel { ch with reading := false } place

/-! ## What a connection carries -/

/-- All connections that have been made, the socket of the client first. -/
def Conversation.channels (s : Conversation) : List Channel := s.socket.toList ++ s.given

/-- A connection carries the request of its last call, unless it has been read. -/
def Conversation.Carries (s : Conversation) (ch : Channel) : Prop :=
  ∃ c, s.calls[ch.call]? = some c ∧
    (ch.up = [] ∨ ch.up = c.encode ∧ ch.down = [] ∧ ∀ p ∈ s.handled, p.1 ≠ ch.call)

/-- A connection whose request has been read. -/
def Channel.served (app : Request → Outcome) (request : Request) (ch : Channel) : Channel :=
  ⟨[], (app request).sent, (app request).keeps request, ch.call⟩

/-- What every state reached satisfies. -/
structure Conversation.Inv (app : Request → Outcome) (s : Conversation) : Prop where
  handled_seen : ∀ p ∈ s.handled, ∃ c, s.calls[p.1]? = some c ∧ c.Seen p.2
  handled_once : (s.handled.map Prod.fst).Nodup
  carries : ∀ ch ∈ s.channels, s.Carries ch
  apart : (s.channels.map Channel.call).Nodup
  /-- Nothing is under way on the socket that the next call is written to. -/
  idle : s.waiting = false → s.socketError = false → ∀ ch, s.socket = some ch →
    ch.up = [] ∧ ch.down = []
  /-- What comes back on the socket is the response to the call in flight. -/
  busy : s.waiting = true → s.socketError = false ∧ ∃ ch, s.socket = some ch ∧
    ch.call + 1 = s.calls.length ∧
    (ch.up = [] → ∃ request, (ch.call, request) ∈ s.handled ∧ ch.down = (app request).sent)
  returned_order : (s.returned.map Prod.fst).Pairwise (· < ·)
  returned_before : ∀ p ∈ s.returned, p.1 + s.waiting.toNat < s.calls.length
  returned_own : ∀ p ∈ s.returned, ∃ request, (p.1, request) ∈ s.handled ∧
    ∃ h : HandlerResponse, (app request).sent = h.encode ∧ p.2 = h.response

section Steps

variable {app : Request → Outcome} {s : Conversation}

/-- The server hands over what the connection carries, and takes it off the connection. -/
theorem Channel.serve_eq_some {ch ch' : Channel} {c : Call} {reads : Socket} {request : Request}
    (hup : ch.up = [] ∨ ch.up = c.encode ∧ ch.down = [])
    (h : ch.serve app reads = some (ch', request)) :
    ch.reading = true ∧ ch.up = c.encode ∧ c.Seen request ∧
      ch' = ch.served app request := by
  unfold serve at h
  split at h
  · rename_i hguard
    split at h
    · rename_i buf request' rest hread
      rw [Option.some.injEq, Prod.mk.injEq] at h
      obtain ⟨rfl, rfl⟩ := h
      have hpart : reads.flatten <+: c.encode := by
        obtain hnil | ⟨hwhole, _⟩ := hup
        · rw [hnil, List.prefix_nil] at hguard
          rw [hguard.2]
          exact List.nil_prefix
        · exact hwhole ▸ hguard.2
      obtain ⟨hreads, hrest, hseen⟩ := c.readRequestAndContent_eq_handed hpart hread
      obtain hnil | ⟨hwhole, hdown⟩ := hup
      · rw [hnil, List.prefix_nil, hreads] at hguard
        exact absurd hguard.2 c.encode_ne_nil
      · refine ⟨hguard.1, hwhole, hseen, ?_⟩
        rw [hrest, hwhole, hreads, hdown, List.drop_length]
        rfl
    · cases h
  · cases h

theorem Conversation.mem_channels {place : Option Nat} {ch : Channel}
    (h : s.channel place = some ch) : ch ∈ s.channels := by
  cases place with
  | none =>
    rw [channel] at h
    simp [channels, h]
  | some i => exact List.mem_append_right _ (List.mem_of_getElem? h)

theorem Conversation.mem_channels_socket {ch : Channel} (h : s.socket = some ch) :
    ch ∈ s.channels :=
  have hplace : s.channel none = some ch := h
  s.mem_channels hplace

/-- Replacing a connection keeps the numbers of the calls. -/
theorem Conversation.calls_setChannel {place : Option Nat} {ch : Channel} (ch' : Channel)
    (h : s.channel place = some ch) (hcall : ch'.call = ch.call) :
    (s.setChannel ch' place).channels.map Channel.call = s.channels.map Channel.call := by
  cases place with
  | none =>
    rw [channel] at h
    simp [channels, setChannel, h, hcall]
  | some i =>
    obtain ⟨hi, hget⟩ := List.getElem?_eq_some_iff.mp h
    have hset : (s.given.map Channel.call).set i ch'.call = s.given.map Channel.call := by
      rw [hcall, ← hget]
      have hlen : i < (s.given.map Channel.call).length := by simpa using hi
      simpa using List.set_getElem_self hlen
    simp [channels, setChannel, List.map_set, hset]

theorem Conversation.mem_setChannel_self {place : Option Nat} {ch : Channel} (ch' : Channel)
    (h : s.channel place = some ch) : ch' ∈ (s.setChannel ch' place).channels := by
  cases place with
  | none => simp [channels, setChannel]
  | some i =>
    obtain ⟨hi, _⟩ := List.getElem?_eq_some_iff.mp h
    exact List.mem_append_right _ (List.mem_set hi ch')

/-- Replacing a connection leaves the others. -/
theorem Conversation.mem_setChannel {place : Option Nat} {ch ch' ch'' : Channel}
    (h : s.channel place = some ch) (hmem : ch'' ∈ (s.setChannel ch' place).channels) :
    ch'' = ch' ∨ ch'' ∈ s.channels := by
  cases place with
  | none =>
    obtain hmem | hmem := List.mem_append.mp hmem
    · exact .inl (by simpa [setChannel] using hmem)
    · exact .inr (List.mem_append_right _ hmem)
  | some i =>
    obtain hmem | hmem := List.mem_append.mp hmem
    · exact .inr (List.mem_append_left _ hmem)
    · obtain hmem | rfl := List.mem_or_eq_of_mem_set hmem
      · exact .inr (List.mem_append_right _ hmem)
      · exact .inl rfl

/-- A call that has been made keeps its number. -/
theorem getElem?_of_append {α : Type*} {l : List α} {i : Nat} {a : α} (l' : List α)
    (h : l[i]? = some a) : (l ++ l')[i]? = some a := by
  rw [List.getElem?_append_left (List.getElem?_eq_some_iff.mp h).1, h]

theorem Conversation.Carries.lt_length {ch : Channel} (h : s.Carries ch) :
    ch.call < s.calls.length := by
  obtain ⟨c, hc, _⟩ := h
  exact (List.getElem?_eq_some_iff.mp hc).1

/-- The connections of a client that is not waiting: the one written to next is empty, and the
others stay what they are. -/
theorem Conversation.Inv.connect (hs : s.Inv app) (hwait : s.waiting = false) :
    (s.connect.1.up = [] ∧ s.connect.1.down = []) ∧ (∀ ch ∈ s.connect.2, ch ∈ s.channels) ∧
      (s.connect.2.map Channel.call).Nodup := by
  have hapart := hs.apart
  unfold Conversation.connect
  cases hsocket : s.socket with
  | none =>
    rw [channels, hsocket] at hapart
    exact ⟨⟨rfl, rfl⟩, fun ch hch => List.mem_append_right _ hch, hapart⟩
  | some ch =>
    rw [channels, hsocket] at hapart
    cases herror : s.socketError with
    | true =>
      refine ⟨⟨rfl, rfl⟩, fun ch' hch' => ?_, hapart⟩
      simpa [channels, hsocket] using hch'
    | false =>
      refine ⟨hs.idle hwait herror ch hsocket, fun ch' hch' => List.mem_append_right _ hch', ?_⟩
      exact (List.nodup_cons.mp hapart).2

/-- A connection carries what it did when another call is made. -/
theorem Conversation.Carries.call {ch : Channel} (h : s.Carries ch) (c : Call) {s' : Conversation}
    (hcalls : s'.calls = s.calls ++ [c]) (hhandled : s'.handled = s.handled) : s'.Carries ch := by
  obtain ⟨c', hc', hup⟩ := h
  refine ⟨c', ?_, ?_⟩
  · rw [hcalls]
    exact getElem?_of_append _ hc'
  · rw [hhandled]
    exact hup

/-- The number of the next call is a new one. -/
theorem Conversation.Inv.fresh (hs : s.Inv app) : ∀ p ∈ s.handled, p.1 ≠ s.calls.length := by
  intro p hp
  obtain ⟨c, hc, _⟩ := hs.handled_seen p hp
  exact (List.getElem?_eq_some_iff.mp hc).1.ne

theorem Conversation.Inv.call (hs : s.Inv app) {c : Call} {s' : Conversation}
    (h : s.step app (.call c) = some s') : s'.Inv app := by
  rw [step, Option.ite_none_left_eq_some, Bool.not_eq_true, Option.some.injEq] at h
  obtain ⟨hwait, rfl⟩ := h
  obtain ⟨⟨hup, hdown⟩, hgiven, hapart⟩ := hs.connect hwait
  refine ⟨?_, hs.handled_once, ?_, ?_, ?_, ?_, hs.returned_order, ?_, hs.returned_own⟩
  · intro p hp
    obtain ⟨c', hc', hseen⟩ := hs.handled_seen p hp
    exact ⟨c', getElem?_of_append _ hc', hseen⟩
  · intro ch hch
    obtain rfl | hch := List.mem_cons.mp hch
    · refine ⟨c, ?_, .inr ⟨?_, hdown, hs.fresh⟩⟩
      · simp [Channel.write]
      · rw [Channel.write, hup, List.nil_append]
    · exact (hs.carries ch (hgiven ch hch)).call c rfl rfl
  · refine List.nodup_cons.mpr ⟨fun hmem => ?_, hapart⟩
    obtain ⟨ch, hch, hcall⟩ := List.mem_map.mp hmem
    exact (hs.carries ch (hgiven ch hch)).lt_length.ne hcall
  · intro hfalse
    cases hfalse
  · intro _
    refine ⟨rfl, _, rfl, by simp [Channel.write], fun hnil => ?_⟩
    rw [Channel.write, hup, List.nil_append] at hnil
    exact absurd hnil c.encode_ne_nil
  · intro p hp
    have := hs.returned_before p hp
    simp only [hwait, List.length_append, List.length_singleton, Bool.toNat_true] at this ⊢
    omega

theorem Conversation.Inv.refused (hs : s.Inv app) {c : Call} {s' : Conversation}
    (h : s.step app (.refused c) = some s') : s'.Inv app := by
  rw [step, Option.ite_none_left_eq_some, not_or, Bool.not_eq_true, Option.some.injEq] at h
  obtain ⟨⟨hwait, _⟩, rfl⟩ := h
  obtain ⟨_, hgiven, hapart⟩ := hs.connect hwait
  refine ⟨?_, hs.handled_once, ?_, hapart, ?_, ?_, hs.returned_order, ?_, hs.returned_own⟩
  · intro p hp
    obtain ⟨c', hc', hseen⟩ := hs.handled_seen p hp
    exact ⟨c', getElem?_of_append _ hc', hseen⟩
  · exact fun ch hch => (hs.carries ch (hgiven ch hch)).call c rfl rfl
  · intro _ hfalse
    cases hfalse
  · intro hbusy
    rw [hwait] at hbusy
    cases hbusy
  · intro p hp
    have := hs.returned_before p hp
    simp only [hwait, List.length_append, List.length_singleton] at this ⊢
    omega

theorem Conversation.Inv.raises (hs : s.Inv app) {s' : Conversation}
    (h : s.step app .raises = some s') : s'.Inv app := by
  rw [step, Option.ite_none_right_eq_some, Option.some.injEq] at h
  obtain ⟨_, rfl⟩ := h
  refine ⟨hs.handled_seen, hs.handled_once, hs.carries, hs.apart, ?_, ?_, hs.returned_order, ?_,
    hs.returned_own⟩
  · intro _ hfalse
    cases hfalse
  · intro hfalse
    cases hfalse
  · intro p hp
    exact (Nat.le_add_right _ _).trans_lt (hs.returned_before p hp)

theorem Conversation.Inv.close (hs : s.Inv app) {place : Option Nat} {s' : Conversation}
    (h : s.step app (.close place) = some s') : s'.Inv app := by
  rw [step, Option.map_eq_some_iff] at h
  obtain ⟨ch, hch, rfl⟩ := h
  have hcalls := s.calls_setChannel { ch with reading := false } hch rfl
  have hcarries : ∀ ch' ∈ (s.setChannel { ch with reading := false } place).channels,
      s.Carries ch' := by
    intro ch' hch'
    obtain rfl | hch' := s.mem_setChannel hch hch'
    · exact hs.carries ch (s.mem_channels hch)
    · exact hs.carries ch' hch'
  cases place with
  | none =>
    refine ⟨hs.handled_seen, hs.handled_once, hcarries, hcalls ▸ hs.apart, ?_, ?_,
      hs.returned_order, hs.returned_before, hs.returned_own⟩
    · intro hwait herror ch' hch'
      cases hch'
      exact hs.idle hwait herror ch hch
    · intro hbusy
      obtain ⟨herror, ch', hch', hcall, hserved⟩ := hs.busy hbusy
      obtain rfl : ch = ch' := Option.some.inj (hch.symm.trans hch')
      exact ⟨herror, _, rfl, hcall, hserved⟩
  | some i =>
    exact ⟨hs.handled_seen, hs.handled_once, hcarries, hcalls ▸ hs.apart, hs.idle, hs.busy,
      hs.returned_order, hs.returned_before, hs.returned_own⟩

/-- What a request handed over has come from. -/
theorem Conversation.Inv.serve_eq_some (hs : s.Inv app) {place : Option Nat} {reads : Socket}
    {s' : Conversation} (h : s.step app (.serve place reads) = some s') :
    ∃ ch c request, s.channel place = some ch ∧ ch.reading = true ∧ s.calls[ch.call]? = some c ∧
      ch.up = c.encode ∧ c.Seen request ∧ (∀ p ∈ s.handled, p.1 ≠ ch.call) ∧
      s' = { s.setChannel (ch.served app request) place with
        handled := s.handled ++ [(ch.call, request)] } := by
  rw [step] at h
  split at h
  · cases h
  · rename_i ch hch
    obtain ⟨⟨ch', request⟩, hserve, rfl⟩ := Option.map_eq_some_iff.mp h
    obtain ⟨c, hc, hup⟩ := hs.carries ch (s.mem_channels hch)
    obtain ⟨hreading, hwhole, hseen, rfl⟩ :=
      Channel.serve_eq_some (hup.imp id fun hup => ⟨hup.1, hup.2.1⟩) hserve
    refine ⟨ch, c, request, hch, hreading, hc, hwhole, hseen, ?_, rfl⟩
    obtain hnil | ⟨_, _, hfresh⟩ := hup
    · exact absurd (hwhole.symm.trans hnil) c.encode_ne_nil
    · exact hfresh

theorem Conversation.Inv.serve (hs : s.Inv app) {place : Option Nat} {reads : Socket}
    {s' : Conversation} (h : s.step app (.serve place reads) = some s') : s'.Inv app := by
  obtain ⟨ch, c, request, hch, _, hc, hwhole, hseen, hfresh, rfl⟩ := hs.serve_eq_some h
  have hapart : ((s.setChannel (ch.served app request) place).channels.map Channel.call).Nodup :=
    s.calls_setChannel (ch.served app request) hch rfl ▸ hs.apart
  have hself := s.mem_setChannel_self (ch.served app request) hch
  have hlater {i : Nat} {request' : Request} (hmem : (i, request') ∈ s.handled) :
      (i, request') ∈ s.handled ++ [(ch.call, request)] := List.mem_append_left _ hmem
  refine ⟨?_, ?_, ?_, hapart, ?_, ?_, ?_, ?_, ?_⟩
  · intro p hp
    obtain hp | hp := List.mem_append.mp hp
    · exact hs.handled_seen p hp
    · obtain rfl := List.mem_singleton.mp hp
      exact ⟨c, hc, hseen⟩
  · rw [List.map_append, List.nodup_append]
    refine ⟨hs.handled_once, List.nodup_cons.mpr ⟨List.not_mem_nil, List.nodup_nil⟩, ?_⟩
    intro i hi j hj
    obtain ⟨p, hp, rfl⟩ := List.mem_map.mp hi
    obtain rfl := List.mem_singleton.mp hj
    exact hfresh p hp
  · intro ch' hch'
    obtain rfl | hmem := s.mem_setChannel hch hch'
    · exact ⟨c, hc, .inl rfl⟩
    · obtain ⟨c', hc', hnil | ⟨hup, hdown, hfresh'⟩⟩ := hs.carries ch' hmem
      · exact ⟨c', hc', .inl hnil⟩
      · by_cases hsame : ch'.call = ch.call
        · obtain rfl := List.inj_on_of_nodup_map hapart hch' hself hsame
          exact ⟨c, hc, .inl rfl⟩
        · refine ⟨c', hc', .inr ⟨hup, hdown, fun p hp => ?_⟩⟩
          obtain hp | hp := List.mem_append.mp hp
          · exact hfresh' p hp
          · obtain rfl := List.mem_singleton.mp hp
            exact Ne.symm hsame
  · intro hwait herror ch' hch'
    cases place with
    | none =>
      exact absurd (hwhole.symm.trans (hs.idle hwait herror ch hch).1)
        c.encode_ne_nil
    | some i => exact hs.idle hwait herror ch' hch'
  · intro hbusy
    obtain ⟨herror, ch', hch', hcall, hserved⟩ := hs.busy hbusy
    cases place with
    | none =>
      obtain rfl : ch = ch' := Option.some.inj (hch.symm.trans hch')
      exact ⟨herror, _, rfl, hcall, fun _ => ⟨request, by simp [Channel.served], rfl⟩⟩
    | some i =>
      refine ⟨herror, ch', hch', hcall, fun hnil => ?_⟩
      obtain ⟨request', hmem, hdown⟩ := hserved hnil
      exact ⟨request', hlater hmem, hdown⟩
  · exact hs.returned_order
  · exact hs.returned_before
  · intro p hp
    obtain ⟨request', hmem, hresponse⟩ := hs.returned_own p hp
    exact ⟨request', hlater hmem, hresponse⟩

/-- The responses that handlers write, so far as they get. -/
def Conforming (app : Request → Outcome) : Prop :=
  ∀ request, ∃ h : HandlerResponse, (app request).sent <+: h.encode

/-- What is returned to the client is the whole response to its own request. -/
theorem Conversation.Inv.returns_eq_some (happ : Conforming app) (hs : s.Inv app) {reads : Socket}
    {s' : Conversation} (h : s.step app (.returns reads) = some s') :
    ∃ ch response request, ∃ hr : HandlerResponse, s.socket = some ch ∧ s.waiting = true ∧
      (ch.call, request) ∈ s.handled ∧ (app request).sent = hr.encode ∧ response = hr.response ∧
      s' = { s with
        socket := some { ch with up := [], down := [] }
        waiting := false
        returned := s.returned ++ [(ch.call, response)] } := by
  rw [step] at h
  split at h
  · cases h
  · rename_i ch hch
    split at h
    · rename_i hguard
      obtain ⟨hwait, hpart⟩ := hguard
      split at h
      · rename_i response asked hreceive
        cases h
        obtain ⟨_, ch', hch', _, hserved⟩ := hs.busy hwait
        obtain rfl : ch = ch' := Option.some.inj (hch.symm.trans hch')
        obtain ⟨c, _, hnil | ⟨_, hdown, _⟩⟩ := hs.carries ch (s.mem_channels_socket hch)
        · obtain ⟨request, hmem, hdown⟩ := hserved hnil
          obtain ⟨hr, hsent⟩ := happ request
          obtain ⟨hreads, hresponse⟩ :=
            hr.receive_eq_returned (hpart.trans (hdown ▸ hsent)) hreceive
          rw [hreads, hdown] at hpart
          have hwhole : (app request).sent = hr.encode := hsent.eq_of_length_le hpart.length_le
          refine ⟨ch, response, request, hr, hch, hwait, hmem, hwhole, hresponse, ?_⟩
          rw [hreads, hdown, hwhole, List.drop_length, ← hnil]
        · rw [hdown, List.prefix_nil] at hpart
          obtain ⟨hreads, _⟩ :=
            sampleResponse.receive_eq_returned (hpart ▸ List.nil_prefix) hreceive
          rw [hpart] at hreads
          exact absurd hreads (by decide)
      · cases h
    · cases h

theorem Conversation.Inv.returns (happ : Conforming app) (hs : s.Inv app) {reads : Socket}
    {s' : Conversation} (h : s.step app (.returns reads) = some s') : s'.Inv app := by
  obtain ⟨ch, response, request, hr, hch, hwait, hmem, hsent, hresponse, rfl⟩ :=
    hs.returns_eq_some happ h
  obtain ⟨herror, ch', hch', hcall, _⟩ := hs.busy hwait
  obtain rfl : ch = ch' := Option.some.inj (hch.symm.trans hch')
  have hbefore : ∀ p ∈ s.returned, p.1 < ch.call := by
    intro p hp
    have := hs.returned_before p hp
    rw [hwait, Bool.toNat_true] at this
    omega
  have hchannels : s.channels = ch :: s.given := by
    rw [channels, hch]
    rfl
  refine ⟨hs.handled_seen, hs.handled_once, ?_, ?_, ?_, ?_, ?_, ?_, ?_⟩
  · intro ch' hch'
    obtain rfl | hch' := List.mem_cons.mp hch'
    · obtain ⟨c, hc, _⟩ := hs.carries ch (hchannels ▸ List.mem_cons_self)
      exact ⟨c, hc, .inl rfl⟩
    · exact hs.carries ch' (hchannels ▸ List.mem_cons_of_mem _ hch')
  · have hapart := hs.apart
    rw [hchannels] at hapart
    exact hapart
  · intro _ _ ch' hch'
    cases hch'
    exact ⟨rfl, rfl⟩
  · intro hfalse
    cases hfalse
  · rw [List.map_append, List.pairwise_append]
    refine ⟨hs.returned_order, List.pairwise_singleton .., ?_⟩
    intro i hi j hj
    obtain ⟨p, hp, rfl⟩ := List.mem_map.mp hi
    obtain rfl := List.mem_singleton.mp hj
    exact hbefore p hp
  · intro p hp
    change p.1 < s.calls.length
    obtain hp | hp := List.mem_append.mp hp
    · have := hbefore p hp
      omega
    · obtain rfl := List.mem_singleton.mp hp
      change ch.call < _
      omega
  · intro p hp
    obtain hp | hp := List.mem_append.mp hp
    · exact hs.returned_own p hp
    · obtain rfl := List.mem_singleton.mp hp
      exact ⟨request, hmem, hr, hsent, hresponse⟩

theorem Conversation.Inv.move (happ : Conforming app) (hs : s.Inv app) {a : Move}
    {s' : Conversation} (h : s.step app a = some s') : s'.Inv app := by
  cases a with
  | call c => exact hs.call h
  | refused c => exact hs.refused h
  | returns reads => exact hs.returns happ h
  | raises => exact hs.raises h
  | serve place reads => exact hs.serve h
  | close place => exact hs.close h

/-- Every state reached satisfies the invariant. -/
theorem Conversation.inv_of_run (happ : Conforming app) {as : List Move}
    (h : Run (Conversation.step app) (fun _ _ => True) .init as s) : s.Inv app := by
  refine Run.invariant ?_ (fun s a s' hs _ hstep => hs.move happ hstep) h
  exact ⟨by simp [init], .nil, by simp [init, channels], .nil, by simp [init], by simp [init],
    .nil, by simp [init], by simp [init]⟩

/-- In every run, whatever fails and whenever the server gets to a request: a call is handled at
most once, as one of the requests it can be read as; the responses come back in the order of their
calls, at most one for each; and a response is the whole of what the handler wrote for a request of
that very call. -/
theorem conversation_own_responses (happ : Conforming app) {as : List Move}
    (h : Run (Conversation.step app) (fun _ _ => True) .init as s) :
    (s.handled.map Prod.fst).Nodup ∧
      (∀ p ∈ s.handled, ∃ c, s.calls[p.1]? = some c ∧ c.Seen p.2) ∧
      (s.returned.map Prod.fst).Pairwise (· < ·) ∧
      ∀ p ∈ s.returned, ∃ request, (p.1, request) ∈ s.handled ∧
        ∃ hr : HandlerResponse, (app request).sent = hr.encode ∧ p.2 = hr.response := by
  have hs := Conversation.inv_of_run happ h
  exact ⟨hs.handled_once, hs.handled_seen, hs.returned_order, hs.returned_own⟩

/-- A call with a body. -/
def samplePut : Call where
  toClientCall := sampleCall
  body := ascii "abc"
  body_length := by decide
  length_lt := by decide

/-- A handler that answers with the beginning of the path. -/
def sampleHandler (request : Request) : Outcome :=
  .answered [.write (serverResponse (ascii "200 OK") (request.path.take 4))]

/-- The response it writes. -/
def sampleAnswer (path : Bytes) : HandlerResponse where
  status := ascii "200 OK"
  body := path.take 4
  status_lf := sampleResponse.status_lf
  body_length := Nat.lt_of_le_of_lt (List.length_take_le 4 path) (by decide)

theorem sampleHandler_sent (request : Request) :
    (sampleHandler request).sent = (sampleAnswer request.path).encode := by
  rw [sampleHandler, Outcome.sent, (writeResponse_sent _).1]
  exact List.append_nil _

theorem sampleHandler_conforming : Conforming sampleHandler := fun request =>
  ⟨sampleAnswer request.path, (sampleHandler_sent request) ▸ List.prefix_refl _⟩

/-- A call whose connection breaks is made again; its first request arrives last. -/
def lateMoves : List Move :=
  [.call samplePut, .raises, .call samplePut,
    .serve none [samplePut.encode.take 40, samplePut.encode.drop 40],
    .returns [(sampleAnswer (ascii "/")).encode], .serve (some 0) [samplePut.encode]]

/-- The guarantee applied to that run, in which the first call is handled after the second. -/
theorem conversation_own_responses_late :
    ∃ s, runFrom (Conversation.step sampleHandler) lateMoves .init = some s ∧
      s.handled.map Prod.fst = [1, 0] ∧ s.returned.map Prod.fst = [1] ∧
      (s.handled.map Prod.fst).Nodup ∧
      (∀ p ∈ s.handled, ∃ c, s.calls[p.1]? = some c ∧ c.Seen p.2) ∧
      (s.returned.map Prod.fst).Pairwise (· < ·) ∧
      ∀ p ∈ s.returned, ∃ request, (p.1, request) ∈ s.handled ∧ ∃ hr : HandlerResponse,
        (sampleHandler request).sent = hr.encode ∧ p.2 = hr.response := by
  have hlog : (runFrom (Conversation.step sampleHandler) lateMoves .init).map
      (fun s => (s.handled.map Prod.fst, s.returned.map Prod.fst)) = some ([1, 0], [1]) := by
    decide +kernel
  obtain ⟨s, hs, he⟩ := Option.map_eq_some_iff.mp hlog
  rw [Prod.mk.injEq] at he
  have hrun : Run (Conversation.step sampleHandler) (fun _ _ => True) .init lateMoves s :=
    Run.of_runFrom hs fun _ _ _ _ _ _ => trivial
  exact ⟨s, hs, he.1, he.2, conversation_own_responses sampleHandler_conforming hrun⟩

/-! ## When a call is answered -/

/-- The next call is written to a connection that the server reads from. -/
def Conversation.Ready (s : Conversation) : Prop := s.connect.1.reading = true

/-- The server never gets to the call of this number. -/
structure Conversation.Lost (n : Nat) (s : Conversation) : Prop where
  made : n < s.calls.length
  unhandled : ∀ p ∈ s.handled, p.1 ≠ n
  closed : ∀ ch ∈ s.channels, ch.call = n → ch.reading = false

/-- The connections given up for the next call were connections before. -/
theorem Conversation.connect_subset {ch : Channel} (h : ch ∈ s.connect.2) : ch ∈ s.channels := by
  unfold connect at h
  split at h
  · exact List.mem_append_right _ h
  · rename_i ch' hsocket
    split at h
    · simpa [channels, hsocket] using h
    · exact List.mem_append_right _ h

/-- What is lost stays lost. -/
theorem Conversation.Lost.step {n : Nat} (hlost : s.Lost n) (hs : s.Inv app) {a : Move}
    {s' : Conversation} (h : s.step app a = some s') : s'.Lost n := by
  obtain ⟨hmade, hunhandled, hclosed⟩ := hlost
  cases a with
  | call c =>
    rw [Conversation.step, Option.ite_none_left_eq_some, Option.some.injEq] at h
    obtain ⟨_, rfl⟩ := h
    refine ⟨?_, hunhandled, fun ch hch hcall => ?_⟩
    · rw [List.length_append]
      omega
    · obtain rfl | hch := List.mem_cons.mp hch
      · exact absurd hcall (Nat.ne_of_gt hmade)
      · exact hclosed ch (s.connect_subset hch) hcall
  | refused c =>
    rw [Conversation.step, Option.ite_none_left_eq_some, Option.some.injEq] at h
    obtain ⟨_, rfl⟩ := h
    refine ⟨?_, hunhandled, fun ch hch => hclosed ch (s.connect_subset hch)⟩
    rw [List.length_append]
    omega
  | returns reads =>
    rw [Conversation.step] at h
    split at h
    · cases h
    · rename_i ch hch
      split at h
      · split at h
        · cases h
          refine ⟨hmade, hunhandled, fun ch' hch' hcall => ?_⟩
          obtain rfl | hch' := List.mem_cons.mp hch'
          · exact hclosed ch (s.mem_channels_socket hch) hcall
          · exact hclosed ch' (List.mem_append_right _ hch') hcall
        · cases h
      · cases h
  | raises =>
    rw [Conversation.step, Option.ite_none_right_eq_some, Option.some.injEq] at h
    obtain ⟨_, rfl⟩ := h
    exact ⟨hmade, hunhandled, hclosed⟩
  | serve place reads =>
    obtain ⟨ch, c, request, hch, hreading, _, _, _, _, rfl⟩ := hs.serve_eq_some h
    have hne : ch.call ≠ n := by
      intro hcall
      have := hclosed ch (s.mem_channels hch) hcall
      rw [hreading] at this
      cases this
    refine ⟨hmade, fun p hp => ?_, fun ch' hch' hcall => ?_⟩
    · obtain hp | hp := List.mem_append.mp hp
      · exact hunhandled p hp
      · obtain rfl := List.mem_singleton.mp hp
        exact hne
    · obtain rfl | hch' := s.mem_setChannel hch hch'
      · exact absurd hcall hne
      · exact hclosed ch' hch' hcall
  | close place =>
    rw [Conversation.step, Option.map_eq_some_iff] at h
    obtain ⟨ch, hch, rfl⟩ := h
    refine ⟨hmade, hunhandled, fun ch' hch' hcall => ?_⟩
    obtain rfl | hch' := s.mem_setChannel hch hch'
    · rfl
    · exact hclosed ch' hch' hcall

/-- A call that reaches a reading server is handled and its response returned, however the bytes
are cut into reads in each direction. -/
theorem Conversation.Inv.deliver (hs : s.Inv app) (hwait : s.waiting = false) (hready : s.Ready)
    {c : Call} (hanswer : ∀ request, c.Seen request →
      ∃ hr : HandlerResponse, (app request).sent = hr.encode)
    {up : Socket} (hup : up.flatten = c.encode) :
    ∃ request, c.Seen request ∧ ∀ down : Socket, down.flatten = (app request).sent →
      ∃ s' response, runFrom (step app) [.call c, .serve none up, .returns down] s = some s' ∧
        s'.handled = s.handled ++ [(s.calls.length, request)] ∧
        s'.returned = s.returned ++ [(s.calls.length, response)] := by
  obtain ⟨⟨hnil, hdown⟩, _, _⟩ := hs.connect hwait
  obtain ⟨buf, request, rest, hread⟩ := c.readRequestAndContent_whole hup
  obtain ⟨_, hrest, hseen⟩ :=
    c.readRequestAndContent_eq_handed (hup ▸ List.prefix_refl _) hread
  refine ⟨request, hseen, fun down hflat => ?_⟩
  obtain ⟨hr, hsent⟩ := hanswer request hseen
  obtain ⟨_, _, _, _, hreceive⟩ := receive_encode hr (hflat.trans hsent)
  have hserve : (s.connect.1.write s.calls.length c).serve app up =
      some ((s.connect.1.write s.calls.length c).served app request, request) := by
    have hguard : (s.connect.1.write s.calls.length c).reading ∧
        up.flatten <+: (s.connect.1.write s.calls.length c).up := by
      refine ⟨hready, ?_⟩
      rw [Channel.write, hnil, hup, List.nil_append]
    rw [Channel.serve, if_pos hguard, hread]
    simp [Channel.write, Channel.served, hnil, hdown, hrest, hup]
  have hcall : s.step app (.call c) = some { s with
      calls := s.calls ++ [c]
      socket := some (s.connect.1.write s.calls.length c)
      socketError := false
      waiting := true
      given := s.connect.2 } := by
    rw [step, if_neg (by simp [hwait])]
  refine ⟨{ s with
      calls := s.calls ++ [c]
      socket := some { (s.connect.1.write s.calls.length c).served app request with down := [] }
      socketError := false
      waiting := false
      given := s.connect.2
      handled := s.handled ++ [(s.calls.length, request)]
      returned := s.returned ++ [(s.calls.length, hr.response)] }, hr.response, ?_, rfl, rfl⟩
  rw [runFrom, hcall]
  simp only [Option.bind_some, runFrom, step, channel, hserve, Option.map_some, setChannel,
    Channel.served, hflat, List.prefix_refl, and_self, if_true, hreceive, List.drop_length]
  rfl

/-- A call made on a connection that the server has closed is never handled. -/
theorem Conversation.Inv.lost (hs : s.Inv app) (hready : ¬ s.Ready) {c : Call} {s' : Conversation}
    (h : s.step app (.call c) = some s') : s'.Lost s.calls.length := by
  rw [step, Option.ite_none_left_eq_some, Bool.not_eq_true, Option.some.injEq] at h
  obtain ⟨_, rfl⟩ := h
  refine ⟨by simp, hs.fresh, fun ch hch hcall => ?_⟩
  obtain rfl | hch := List.mem_cons.mp hch
  · exact Bool.eq_false_iff.mpr hready
  · exact absurd hcall (hs.carries ch (s.connect_subset hch)).lt_length.ne

/-- A call whose handler answers is answered exactly when it is written to a connection that the
server still reads from: then its response is returned, however the bytes are cut into reads; else
it is never handled in any continuation, and no response is returned for it. -/
theorem call_answered_iff_ready (happ : Conforming app) {as : List Move}
    (h : Run (Conversation.step app) (fun _ _ => True) .init as s) (hwait : s.waiting = false)
    {c : Call} (hanswer : ∀ request, c.Seen request →
      ∃ hr : HandlerResponse, (app request).sent = hr.encode) :
    (s.Ready → ∀ up : Socket, up.flatten = c.encode → ∃ request, c.Seen request ∧
      ∀ down : Socket, down.flatten = (app request).sent → ∃ s' response,
        runFrom (Conversation.step app) [.call c, .serve none up, .returns down] s = some s' ∧
          s'.handled = s.handled ++ [(s.calls.length, request)] ∧
          s'.returned = s.returned ++ [(s.calls.length, response)]) ∧
      (¬ s.Ready → ∀ bs s', Run (Conversation.step app) (fun _ _ => True) s (.call c :: bs) s' →
        s.calls.length ∉ s'.handled.map Prod.fst ∧
          s.calls.length ∉ s'.returned.map Prod.fst) := by
  have hs := Conversation.inv_of_run happ h
  refine ⟨fun hready up hup => hs.deliver hwait hready hanswer hup, ?_⟩
  intro hready bs s' hrun
  obtain ⟨m, hcall, hbs⟩ := Run.split (show Run _ _ s ([.call c] ++ bs) s' from hrun)
  obtain ⟨s₀, hnil, _, hstep⟩ :=
    Run.snoc_iff.mp (show Run (Conversation.step app) _ s ([] ++ [.call c]) m from hcall)
  obtain rfl := Run.nil_iff.mp hnil
  have hkept : s'.Inv app ∧ s'.Lost s₀.calls.length := by
    refine Run.invariant (P := fun t => t.Inv app ∧ t.Lost s₀.calls.length)
      ⟨hs.call hstep, hs.lost hready hstep⟩ ?_ hbs
    intro s₁ a s₂ hs₁ _ hs₂
    exact ⟨hs₁.1.move happ hs₂, hs₁.2.step hs₁.1 hs₂⟩
  obtain ⟨hinv, hlost⟩ := hkept
  have hunhandled : s₀.calls.length ∉ s'.handled.map Prod.fst := by
    intro hmem
    obtain ⟨p, hp, he⟩ := List.mem_map.mp hmem
    exact hlost.unhandled p hp he
  refine ⟨hunhandled, fun hmem => hunhandled ?_⟩
  obtain ⟨p, hp, he⟩ := List.mem_map.mp hmem
  obtain ⟨request, hrequest, _⟩ := hinv.returned_own p hp
  exact he ▸ List.mem_map.mpr ⟨_, hrequest, rfl⟩

end Steps

/-- Before the first call the server is ready: the call is answered, its bytes cut in the middle of
the first line. -/
theorem call_answered_iff_ready_first :
    ∃ request, samplePut.Seen request ∧ ∃ s' response,
      runFrom (Conversation.step sampleHandler)
          [.call samplePut, .serve none [samplePut.encode.take 7, samplePut.encode.drop 7],
            .returns [(sampleHandler request).sent]] .init = some s' ∧
        s'.handled = [(0, request)] ∧ s'.returned = [(0, response)] := by
  have hcut : [samplePut.encode.take 7, samplePut.encode.drop 7].flatten = samplePut.encode := by
    simp
  obtain ⟨request, hseen, hrun⟩ := (call_answered_iff_ready sampleHandler_conforming .nil rfl
    fun request _ => ⟨_, sampleHandler_sent request⟩).1 rfl _ hcut
  exact ⟨request, hseen, hrun _ List.flatten_singleton⟩

end AsioCoroFrame.Http
