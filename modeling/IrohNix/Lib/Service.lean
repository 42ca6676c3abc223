import IrohNix.Lib.Collect
import IrohNix.Lib.Framing
import IrohNix.Lib.Runs
import Mathlib.Logic.Function.Basic

namespace IrohNix.Lib

/-- A service that answers framed requests on many connections, and has calls of its own.
A stream that cannot be read has ended, or failed in some way. -/
structure Service (σ ι ε F E Req Resp : Type) where
  limit : Nat
  tooLarge : Nat → E
  /-- How the loop returns without a length, and without the body behind one. -/
  lengthCut : Option F → Except E Unit
  bodyCut : Option F → E
  decode : List UInt8 → Except E Req
  encode : Resp → Except E (List UInt8)
  /-- The failure of a write, by how much of the response is out. -/
  writeCut : Nat → F → E
  answers : ι → σ → Req → ε → Resp → σ → Prop
  own : σ → ε → σ → Prop

/-- A connection as its handler sees it: what has arrived and is not read yet, whether the
peer has stopped sending, what was written, and how the handler returned. -/
structure Conn (F E : Type) where
  unread : List UInt8
  closed : Option (Option F)
  written : List UInt8
  returned : Option (Except E Unit)

def Conn.fresh {F E : Type} : Conn F E := ⟨[], none, [], none⟩

/-- What the handler of a connection does next. -/
inductive Turn (E Req : Type) where
  | waits
  | returns (outcome : Except E Unit)
  | takes (request : Req) (rest : List UInt8)

inductive ServiceEvent (ι ε F E Req Resp : Type) where
  | arrives (i : ι) (bytes : List UInt8)
  | closes (i : ι) (failure : Option F)
  | handles (i : ι) (request : Req) (call : ε) (response : Resp)
  | returns (i : ι) (outcome : Except E Unit)
  | own (call : ε)

structure Served (σ ι F E : Type) where
  state : σ
  conn : ι → Conn F E

namespace Service

variable {σ ι ε F E Req Resp : Type} (svc : Service σ ι ε F E Req Resp)

/-- One turn of a handler's loop. It waits only for a peer that has not stopped sending. -/
def next (c : Conn F E) : Turn E Req :=
  match front svc.limit c.unread with
  | .noLength =>
    match c.closed with
    | none => .waits
    | some failure => .returns (svc.lengthCut failure)
  | .tooLarge size => .returns (.error (svc.tooLarge size))
  | .noBody _ =>
    match c.closed with
    | none => .waits
    | some failure => .returns (.error (svc.bodyCut failure))
  | .frame payload rest =>
    match svc.decode payload with
    | .error e => .returns (.error e)
    | .ok request => .takes request rest

/-- The rest of the turn: the response is written, all of it unless a write fails. -/
def reply (c : Conn F E) (rest : List UInt8) (response : Resp) (lost : Option (Nat × F)) :
    Conn F E :=
  match svc.encode response with
  | .error e => { c with unread := rest, returned := some (.error e) }
  | .ok payload =>
    match lost with
    | none => { c with unread := rest, written := c.written ++ framed payload }
    | some (out, failure) =>
      { c with
        unread := rest
        written := c.written ++ (framed payload).take out
        returned := some (.error (svc.writeCut out failure)) }

/-- Bytes arrive in any pieces; the handlers and the service's own calls take turns in
any order. -/
inductive Step [DecidableEq ι] : Served σ ι F E → ServiceEvent ι ε F E Req Resp → Served σ ι F E →
    Prop where
  | arrives (s : Served σ ι F E) (i : ι) (bytes : List UInt8) (sending : (s.conn i).closed = none) :
      Step s (.arrives i bytes)
        { s with
          conn := Function.update s.conn i
            { s.conn i with unread := (s.conn i).unread ++ bytes } }
  | closes (s : Served σ ι F E) (i : ι) (failure : Option F)
      (sending : (s.conn i).closed = none) :
      Step s (.closes i failure)
        { s with conn := Function.update s.conn i { s.conn i with closed := some failure } }
  | handles (s : Served σ ι F E) (i : ι) (request : Req) (rest : List UInt8) (call : ε)
      (response : Resp) (state : σ) (lost : Option (Nat × F))
      (running : (s.conn i).returned = none) (next : svc.next (s.conn i) = .takes request rest)
      (answer : svc.answers i s.state request call response state) :
      Step s (.handles i request call response)
        ⟨state, Function.update s.conn i (svc.reply (s.conn i) rest response lost)⟩
  | returns (s : Served σ ι F E) (i : ι) (outcome : Except E Unit)
      (running : (s.conn i).returned = none) (next : svc.next (s.conn i) = .returns outcome) :
      Step s (.returns i outcome)
        { s with conn := Function.update s.conn i { s.conn i with returned := some outcome } }
  | own (s : Served σ ι F E) (call : ε) (state : σ) (step : svc.own s.state call state) :
      Step s (.own call) { s with state }

/-- The requests of all whole frames, up to the first that is too large or malformed. -/
def decodeAll {R : Type} (decode : List UInt8 → Except E R) : List (List UInt8) → List R
  | [] => []
  | payload :: rest =>
    match decode payload with
    | .error _ => []
    | .ok request => request :: decodeAll decode rest

def requests (bytes : List UInt8) : List Req := decodeAll svc.decode (payloads svc.limit bytes)

/-- The bytes of a response, none if it cannot be encoded. -/
def responseBytes (response : Resp) : List UInt8 :=
  match svc.encode response with
  | .error _ => []
  | .ok payload => framed payload

variable [DecidableEq ι]

/-- What has come from a peer. -/
def arrivedOn (i : ι) (h : List (ServiceEvent ι ε F E Req Resp)) : List UInt8 :=
  h.flatMap fun
    | .arrives j bytes => if j = i then bytes else []
    | _ => []

/-- What was handled for a peer, with the responses. -/
def handledOn (i : ι) (h : List (ServiceEvent ι ε F E Req Resp)) : List (Req × Resp) :=
  h.filterMap fun
    | .handles j request _ response => if j = i then some (request, response) else none
    | _ => none

/-- The calls on the service's state. -/
def calls (h : List (ServiceEvent ι ε F E Req Resp)) : List ε :=
  h.filterMap fun
    | .handles _ _ call _ | .own call => some call
    | _ => none

def init (state : σ) : Served σ ι F E := ⟨state, fun _ => .fresh⟩

/-- What the handler of a connection has done of what has come in. -/
structure Kept (i : ι) (h : List (ServiceEvent ι ε F E Req Resp)) (c : Conn F E) : Prop where
  taken : ∀ more, svc.requests (arrivedOn i h ++ more) =
    (handledOn i h).map Prod.fst ++ svc.requests (c.unread ++ more)
  written : c.written <+: (handledOn i h).flatMap fun e => svc.responseBytes e.2
  whole : (∀ e, c.returned ≠ some (.error e)) →
    c.written = (handledOn i h).flatMap fun e => svc.responseBytes e.2

/-- A peer's requests are handled in order, none twice and none before it is whole, and all
of them once the handler waits; each answer goes where its request came from. -/
structure InOrder (i : ι) (h : List (ServiceEvent ι ε F E Req Resp)) (c : Conn F E) : Prop where
  handled : (handledOn i h).map Prod.fst <+: svc.requests (arrivedOn i h)
  caughtUp : svc.next c = .waits → (handledOn i h).map Prod.fst = svc.requests (arrivedOn i h)
  answered : c.written <+: (handledOn i h).flatMap fun e => svc.responseBytes e.2

variable {svc}

omit [DecidableEq ι] in
theorem next_takes {c : Conn F E} {request : Req} {rest : List UInt8}
    (h : svc.next c = .takes request rest) : ∃ payload,
      front svc.limit c.unread = .frame payload rest ∧ svc.decode payload = .ok request := by
  rw [next] at h
  cases hf : front svc.limit c.unread with
  | noLength | noBody =>
    simp only [hf] at h
    split at h <;> cases h
  | tooLarge size =>
    simp only [hf] at h
    cases h
  | frame payload rest' =>
    simp only [hf] at h
    cases hd : svc.decode payload with
    | error e =>
      simp only [hd] at h
      cases h
    | ok request' =>
      simp only [hd, Turn.takes.injEq] at h
      obtain ⟨rfl, rfl⟩ := h
      exact ⟨payload, rfl, hd⟩

omit [DecidableEq ι] in
/-- A request taken is the first of all that are there, whatever else arrives. -/
theorem requests_takes {c : Conn F E} {request : Req} {rest : List UInt8}
    (h : svc.next c = .takes request rest) (more : List UInt8) :
    svc.requests (c.unread ++ more) = request :: svc.requests (rest ++ more) := by
  obtain ⟨payload, hf, hd⟩ := next_takes h
  rw [requests, payloads_frame (front_append hf more), decodeAll, hd, requests]

omit [DecidableEq ι] in
/-- A handler that waits has taken all requests there are. -/
theorem requests_waits {c : Conn F E} (h : svc.next c = .waits) : svc.requests c.unread = [] := by
  rw [requests, payloads_none, decodeAll]
  intro payload rest hf
  rw [next, hf] at h
  simp only at h
  split at h <;> cases h

theorem kept_fresh (i : ι) : svc.Kept i [] .fresh where
  taken := fun _ => rfl
  written := List.nil_prefix
  whole := fun _ => rfl

/-- An event on another connection, or on the state alone. -/
theorem Kept.frame {i : ι} {h : List (ServiceEvent ι ε F E Req Resp)} {c : Conn F E}
    {e : ServiceEvent ι ε F E Req Resp} (kept : svc.Kept i h c) (none_in : arrivedOn i [e] = [])
    (none_done : handledOn i [e] = []) : svc.Kept i (h ++ [e]) c := by
  have arrived : arrivedOn i (h ++ [e]) = arrivedOn i h := by
    rw [arrivedOn, List.flatMap_append, ← arrivedOn, ← arrivedOn, none_in, List.append_nil]
  have handled : handledOn i (h ++ [e]) = handledOn i h := by
    rw [handledOn, List.filterMap_append, ← handledOn, ← handledOn, none_done, List.append_nil]
  exact ⟨by rw [arrived, handled]; exact kept.taken, by rw [handled]; exact kept.written,
    by rw [handled]; exact kept.whole⟩

theorem Kept.arrives {i : ι} {h : List (ServiceEvent ι ε F E Req Resp)} {c : Conn F E}
    (kept : svc.Kept i h c) (bytes : List UInt8) :
    svc.Kept i (h ++ [.arrives i bytes]) { c with unread := c.unread ++ bytes } := by
  have arrived : arrivedOn i (h ++ [(.arrives i bytes : ServiceEvent ι ε F E Req Resp)]) =
      arrivedOn i h ++ bytes := by simp [arrivedOn]
  have handled : handledOn i (h ++ [(.arrives i bytes : ServiceEvent ι ε F E Req Resp)]) =
      handledOn i h := by simp [handledOn]
  refine ⟨fun more => ?_, by rw [handled]; exact kept.written, by rw [handled]; exact kept.whole⟩
  rw [arrived, handled, List.append_assoc, List.append_assoc]
  exact kept.taken (bytes ++ more)

theorem Kept.handles {i : ι} {h : List (ServiceEvent ι ε F E Req Resp)} {c : Conn F E}
    {request : Req} {rest : List UInt8} (kept : svc.Kept i h c) (running : c.returned = none)
    (takes : svc.next c = .takes request rest) (call : ε) (response : Resp)
    (lost : Option (Nat × F)) :
    svc.Kept i (h ++ [.handles i request call response]) (svc.reply c rest response lost) := by
  have arrived : arrivedOn i (h ++ [(.handles i request call response :
      ServiceEvent ι ε F E Req Resp)]) = arrivedOn i h := by simp [arrivedOn]
  have handled : handledOn i (h ++ [(.handles i request call response :
      ServiceEvent ι ε F E Req Resp)]) = handledOn i h ++ [(request, response)] := by
    simp [handledOn]
  have left : (svc.reply c rest response lost).unread = rest := by
    rw [reply]
    split
    · rfl
    · split <;> rfl
  have all := kept.whole (by simp [running])
  refine ⟨fun more => ?_, ?_, ?_⟩
  · rw [arrived, handled, left, kept.taken more, requests_takes takes more, List.map_append]
    simp
  · rw [handled, List.flatMap_append, ← all, List.flatMap_singleton, reply, responseBytes]
    cases svc.encode response with
    | error e => simp
    | ok payload =>
      cases lost with
      | none => exact List.prefix_refl _
      | some cut => exact (List.prefix_append_right_inj _).mpr (List.take_prefix _ _)
  · intro goesOn
    rw [handled, List.flatMap_append, ← all, List.flatMap_singleton, responseBytes]
    rw [reply] at goesOn ⊢
    cases he : svc.encode response with
    | error e =>
      simp only [he] at goesOn
      exact absurd rfl (goesOn e)
    | ok payload =>
      cases lost with
      | none => rfl
      | some cut =>
        simp only [he] at goesOn
        exact absurd rfl (goesOn _)

theorem Kept.closes {i : ι} {h : List (ServiceEvent ι ε F E Req Resp)} {c : Conn F E}
    (kept : svc.Kept i h c) (closed : Option (Option F)) : svc.Kept i h { c with closed } :=
  ⟨kept.taken, kept.written, kept.whole⟩

theorem Kept.returns {i : ι} {h : List (ServiceEvent ι ε F E Req Resp)} {c : Conn F E}
    (kept : svc.Kept i h c) (running : c.returned = none) (outcome : Except E Unit) :
    svc.Kept i h { c with returned := some outcome } :=
  ⟨kept.taken, kept.written, fun _ => kept.whole (by simp [running])⟩

/-- What happens on one connection leaves the others as they are. -/
theorem kept_update {i : ι} {h : List (ServiceEvent ι ε F E Req Resp)}
    {e : ServiceEvent ι ε F E Req Resp} {conn : ι → Conn F E} {c : Conn F E}
    (kept : ∀ j, svc.Kept j h (conn j)) (here : svc.Kept i (h ++ [e]) c)
    (others : ∀ j ≠ i, arrivedOn j [e] = [] ∧ handledOn j [e] = []) (j : ι) :
    svc.Kept j (h ++ [e]) (Function.update conn i c j) := by
  by_cases hj : j = i
  · subst hj
    simpa using here
  · rw [Function.update_of_ne hj]
    exact (kept j).frame (others j hj).1 (others j hj).2

theorem kept_step {h : List (ServiceEvent ι ε F E Req Resp)} {s t : Served σ ι F E}
    {e : ServiceEvent ι ε F E Req Resp} (kept : ∀ i, svc.Kept i h (s.conn i))
    (step : svc.Step s e t) (i : ι) : svc.Kept i (h ++ [e]) (t.conn i) := by
  cases step with
  | arrives j bytes sending =>
    refine kept_update kept ((kept j).arrives bytes) (fun k hk => ?_) i
    simp [arrivedOn, handledOn, Ne.symm hk]
  | closes j failure sending =>
    have quiet := ((kept j).closes (some failure)).frame (e := .closes j failure) rfl rfl
    exact kept_update kept quiet (fun k _ => ⟨rfl, rfl⟩) i
  | handles j request rest call response state lost running takes answer =>
    refine kept_update kept ((kept j).handles running takes call response lost)
      (fun k hk => ?_) i
    simp [arrivedOn, handledOn, Ne.symm hk]
  | returns j outcome running returns =>
    have quiet := ((kept j).returns running outcome).frame (e := .returns j outcome) rfl rfl
    exact kept_update kept quiet (fun k _ => ⟨rfl, rfl⟩) i
  | own call state step => exact (kept i).frame rfl rfl

/-- In every run, every handler keeps in step with what its peer sends. -/
theorem kept_run {state : σ} {h : List (ServiceEvent ι ε F E Req Resp)} {s : Served σ ι F E}
    (run : Run svc.Step (init state) h s) (i : ι) : svc.Kept i h (s.conn i) :=
  run.invariant (fun h s => ∀ i, svc.Kept i h (s.conn i)) (fun i => kept_fresh i)
    (fun _ _ _ _ _ kept step => kept_step kept step) i

theorem Kept.inOrder {i : ι} {h : List (ServiceEvent ι ε F E Req Resp)} {c : Conn F E}
    (kept : svc.Kept i h c) : svc.InOrder i h c := by
  have taken := kept.taken []
  simp only [List.append_nil] at taken
  refine ⟨?_, ?_, kept.written⟩
  · rw [taken]
    exact List.prefix_append _ _
  · intro waits
    rw [taken, requests_waits waits, List.append_nil]

/-- What is handled was there to be read. -/
theorem request_arrived {state : σ} {h : List (ServiceEvent ι ε F E Req Resp)} {s : Served σ ι F E}
    (run : Run svc.Step (init state) h s) {i : ι} {request : Req} {call : ε} {response : Resp}
    (handled : .handles i request call response ∈ h) : request ∈ svc.requests (arrivedOn i h) := by
  refine (kept_run run i).inOrder.handled.subset (List.mem_map.mpr ⟨(request, response), ?_, rfl⟩)
  exact List.mem_filterMap.mpr ⟨_, handled, if_pos rfl⟩

/-- Nothing arrives while a request is handled. -/
theorem arrivedOn_handles {i j : ι} {h : List (ServiceEvent ι ε F E Req Resp)} {request : Req}
    {call : ε} {response : Resp} :
    arrivedOn i (h ++ [.handles j request call response]) = arrivedOn i h := by
  simp [arrivedOn]

omit [DecidableEq ι] in
theorem decodeAll_prefix {R : Type} {decode : List UInt8 → Except E R}
    {part whole : List (List UInt8)} (h : part <+: whole) :
    decodeAll decode part <+: decodeAll decode whole := by
  obtain ⟨rest, rfl⟩ := h
  induction part with
  | nil => exact List.nil_prefix
  | cons payload part ih =>
    simp only [List.cons_append, decodeAll]
    cases decode payload with
    | error e => exact List.prefix_refl _
    | ok request => exact (List.prefix_cons_inj request).mpr ih

omit [DecidableEq ι] in
/-- Of a stream's first part, the first of its requests are there. -/
theorem requests_prefix {part whole : List UInt8} (h : part <+: whole) :
    svc.requests part <+: svc.requests whole := by
  obtain ⟨more, rfl⟩ := h
  exact decodeAll_prefix (payloads_of_more _ _ _)

omit [DecidableEq ι] in
/-- Requests that are sent as frames are there as they were sent. -/
theorem requests_sent {bytes : Req → List UInt8} {sent : List Req} (small : svc.limit < 256 ^ 4)
    (carried : ∀ request ∈ sent, ∃ payload, bytes request = framed payload ∧
      payload.length ≤ svc.limit ∧ svc.decode payload = .ok request) :
    svc.requests (sent.flatMap bytes) = sent := by
  induction sent with
  | nil =>
    rw [requests, List.flatMap_nil, payloads_none (by simp [front])]
    rfl
  | cons request sent ih =>
    obtain ⟨payload, written, fits, decoded⟩ := carried request (by simp)
    rw [List.flatMap_cons, written, requests, payloads_frame (front_framed fits small _), decodeAll,
      decoded]
    simp only
    rw [← requests, ih fun r hr => carried r (by simp [hr])]

/-- A connection on which nothing is left to read, and its handler waits for more. -/
structure Quiet (c : Conn F E) : Prop where
  read : c.unread = []
  sending : c.closed = none
  running : c.returned = none

/-- On a quiet connection a request can come in and be handled, and then it is quiet again. -/
theorem exchange {state : σ} {h : List (ServiceEvent ι ε F E Req Resp)} {s : Served σ ι F E}
    (run : Run svc.Step (init state) h s) (i : ι) (quiet : Quiet (s.conn i))
    {request : Req} (text : List UInt8) {call : ε} {response : Resp} {state' : σ}
    {reply : List UInt8} (fits : text.length ≤ svc.limit) (small : svc.limit < 256 ^ 4)
    (decoded : svc.decode text = .ok request)
    (answer : svc.answers i s.state request call response state')
    (encoded : svc.encode response = .ok reply) :
    ∃ t, Run svc.Step (init state)
        (h ++ [.arrives i (framed text)] ++ [.handles i request call response]) t ∧
      t.state = state' ∧ Quiet (t.conn i) ∧ ∀ j ≠ i, t.conn j = s.conn j := by
  have arrived := run.snoc (.arrives s i (framed text) quiet.sending)
  have whole := front_framed fits small []
  rw [List.append_nil] at whole
  have takes : svc.next { s.conn i with unread := (s.conn i).unread ++ framed text } =
      .takes request [] := by
    simp only [next, quiet.read, List.nil_append, whole, decoded]
  have handled := arrived.snoc (.handles _ i request [] call response state' none
    (by simp [quiet.running]) (by simpa using takes) answer)
  refine ⟨_, handled, rfl, ?_, fun j hj => by simp [hj]⟩
  refine ⟨?_, ?_, ?_⟩ <;> simp [Service.reply, encoded, quiet.sending, quiet.running]

/-- Seen from the state, a run is one of calls. -/
theorem state_run {state : σ} {h : List (ServiceEvent ι ε F E Req Resp)} {s : Served σ ι F E}
    (run : Run svc.Step (init state) h s) :
    Run (fun s call t => (∃ i request response, svc.answers i s request call response t) ∨
      svc.own s call t) state (calls h) s.state := by
  refine run.simulates Served.state _ rfl ?_
  intro h s e t _ step
  cases step with
  | arrives | closes | returns => exact .inl ⟨rfl, rfl⟩
  | handles i request rest call response state lost running takes answer =>
    exact .inr ⟨call, rfl, .inl ⟨i, request, response, answer⟩⟩
  | own call state step => exact .inr ⟨call, rfl, .inr step⟩

/-- A call in a run is one that answers a request, or the service's own. -/
theorem call_cases {state : σ} {h : List (ServiceEvent ι ε F E Req Resp)} {s : Served σ ι F E}
    (run : Run svc.Step (init state) h s) {call : ε} (called : call ∈ calls h) :
    (∃ i request response t t', .handles i request call response ∈ h ∧
      svc.answers i t request call response t') ∨ ∃ t t', svc.own t call t' := by
  obtain ⟨e, he, hc⟩ := List.mem_filterMap.mp called
  obtain ⟨before, after, parts⟩ := List.append_of_mem he
  obtain ⟨t, t', _, step⟩ := run.split parts
  cases step with
  | arrives | closes | returns => cases hc
  | handles i request rest call' response state lost running takes answer =>
    cases hc
    exact .inl ⟨i, request, response, _, _, he, answer⟩
  | own call' state step =>
    cases hc
    exact .inr ⟨_, _, step⟩

end Service

end IrohNix.Lib
