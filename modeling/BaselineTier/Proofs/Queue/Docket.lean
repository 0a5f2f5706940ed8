import BaselineTier.Queue
import Mathlib.Data.List.Nodup
import Mathlib.Data.List.Perm.Basic

/-! # The request queue keeps its docket

A queue is used by several parties at once, each request to it under one lock, so what
they do is a history: a list of operations, carried out one after the other from an empty
queue.  Beside the queue stands a `Docket`, which writes down what a history means without
any of the queue's shortcuts.  It numbers the requests as they are accepted, keeps the
pending ones in no particular order, and looks through all of them for the next.

`queue_keeps_docket` says that the queue answers as its docket does after every history in
which only running requests are completed.
-/

set_option autoImplicit false

namespace BaselineTier.Queue

/-! ## Histories -/

/-- A request to the queue. -/
inductive Operation where
  | submit (r : Request)
  /-- Takes a request, if one is pending. -/
  | take
  /-- Waits for a request.  It takes one if the queue is open and one is pending, it goes
  away if the queue is closed, and else it has not happened yet. -/
  | await
  | complete (id : FunctionId)
  | close

/-- The queue after an operation. -/
def after (q : Queue) : Operation → Queue
  | .submit r => (q.submit r).1
  | .take => (q.take?.map Prod.snd).getD q
  | .await => (q.takeOpen?.map Prod.snd).getD q
  | .complete id => q.complete id
  | .close => q.close

/-- The queue after several operations. -/
def afterAll (q : Queue) (ops : List Operation) : Queue :=
  ops.foldl after q

/-- The request that an operation adds to the queue. -/
def accepted? (q : Queue) : Operation → Option Request
  | .submit r => if (q.submit r).2 then some r else none
  | _ => none

/-- The request that an operation is handed. -/
def taken? (q : Queue) : Operation → Option Request
  | .take => q.take?.map Prod.fst
  | .await => q.takeOpen?.map Prod.fst
  | _ => none

/-- What the operations of a history yield, in order. -/
def yields (outcome? : Queue → Operation → Option Request) (q : Queue) :
    List Operation → List Request
  | [] => []
  | op :: ops => (outcome? q op).toList ++ yields outcome? (q.after op) ops

/-! ## The docket -/

/-- An accepted request with its number: requests are numbered as they are accepted. -/
structure Ticket where
  number : Nat
  request : Request

namespace Ticket

/-- The function that the request is for. -/
def id (t : Ticket) : FunctionId := t.request.id

/-- The first ticket is to be taken before the second: it is more urgent, or equally
urgent and not submitted later. -/
def Precedes (t u : Ticket) : Prop :=
  u.request.priority < t.request.priority ∨
    u.request.priority = t.request.priority ∧ t.number ≤ u.number

instance (t u : Ticket) : Decidable (t.Precedes u) :=
  inferInstanceAs (Decidable (_ ∨ _))

theorem Precedes.number_eq {t u : Ticket} (htu : t.Precedes u) (hut : u.Precedes t) :
    t.number = u.number := by
  unfold Precedes at htu hut
  omega

end Ticket

/-- What happened to the requests of a history. -/
structure Docket where
  /-- Every request that was accepted. -/
  accepted : List Ticket := []
  /-- The requests nobody has taken. -/
  pending : List Ticket := []
  /-- Every request that was taken. -/
  taken : List Ticket := []
  /-- The requests that were taken and not completed. -/
  running : List Ticket := []
  closed : Bool := false

namespace Docket

/-- Whether a function has a request that is pending or running. -/
def isBusy (d : Docket) (id : FunctionId) : Bool :=
  (d.pending ++ d.running).any (·.id = id)

/-- The pending request that precedes all others. -/
def next? (d : Docket) : Option Ticket :=
  d.pending.find? fun t => d.pending.all (t.Precedes ·)

/-- Writes down a request, unless it is to be turned away. -/
def submit (d : Docket) (r : Request) : Docket :=
  if d.closed || d.isBusy r.id then d
  else
    let t : Ticket := ⟨d.accepted.length, r⟩
    { d with accepted := d.accepted ++ [t], pending := d.pending ++ [t] }

/-- Moves the next request to the running ones. -/
def take (d : Docket) : Docket :=
  match d.next? with
  | none => d
  | some t =>
    { d with
      pending := d.pending.filter (·.number ≠ t.number)
      taken := d.taken ++ [t]
      running := d.running ++ [t] }

/-- The docket after an operation. -/
def after (d : Docket) : Operation → Docket
  | .submit r => d.submit r
  | .take => d.take
  | .await => if d.closed then d else d.take
  | .complete id => { d with running := d.running.filter (·.id ≠ id) }
  | .close => { d with closed := true }

/-- The docket after several operations. -/
def afterAll (d : Docket) (ops : List Operation) : Docket :=
  ops.foldl after d

/-- Only a running request may be completed. -/
def permits (d : Docket) : Operation → Bool
  | .complete id => d.running.any (·.id = id)
  | _ => true

/-- Every operation is permitted when its turn comes. -/
def permitsAll (d : Docket) : List Operation → Bool
  | [] => true
  | op :: ops => d.permits op && (d.after op).permitsAll ops

theorem isBusy_iff {d : Docket} {id : FunctionId} :
    d.isBusy id = true ↔ ∃ t ∈ d.pending ++ d.running, t.id = id := by
  simp only [isBusy, List.any_eq_true, decide_eq_true_eq]

/-- The docket's own order of things, whatever a queue does. -/
structure Regular (d : Docket) : Prop where
  numbers : d.accepted.map (·.number) = List.range d.accepted.length
  conserved : (d.pending ++ d.taken).Perm d.accepted
  running : d.running.Sublist d.taken
  single : ((d.pending ++ d.running).map (·.id)).Nodup

theorem Regular.number_lt {d : Docket} (h : d.Regular) {t : Ticket} (ht : t ∈ d.pending) :
    t.number < d.accepted.length := by
  have haccepted : t ∈ d.accepted := h.conserved.mem_iff.mp (List.mem_append_left _ ht)
  rw [← List.mem_range, ← h.numbers]
  exact List.mem_map_of_mem haccepted

theorem Regular.nodup_numbers {d : Docket} (h : d.Regular) :
    (d.accepted.map (·.number)).Nodup := by
  rw [h.numbers]
  exact List.nodup_range

theorem Regular.nodup_pending {d : Docket} (h : d.Regular) :
    (d.pending.map (·.number)).Nodup := by
  have hnumbers := (h.conserved.map (·.number)).nodup_iff.mpr h.nodup_numbers
  rw [List.map_append] at hnumbers
  exact hnumbers.of_append_left

end Docket

/-! ## A queue that mirrors a docket -/

/-- The order in which tickets are taken, listed as the requests of a queue. -/
structure Lines (requests : List Request) (tickets order : List Ticket) : Prop where
  perm : order.Perm tickets
  sorted : order.Pairwise Ticket.Precedes
  requests_eq : requests = order.map (·.request)

/-- A queue keeps what its docket has written down. -/
structure Mirrors (d : Docket) (q : Queue) : Prop where
  regular : d.Regular
  pending : ∃ order, Lines q.pending d.pending order
  busy : q.busy.Perm ((d.pending ++ d.running).map (·.id))
  inFlight : q.inFlight = d.running.length
  closed : q.closed = d.closed

section Mirrors

variable {d : Docket} {q : Queue} {requests : List Request} {tickets order : List Ticket}
  {t : Ticket}

theorem Mirrors.isBusy_eq (h : Mirrors d q) (id : FunctionId) : q.isBusy id = d.isBusy id := by
  rw [Bool.eq_iff_iff, Docket.isBusy_iff, isBusy, List.contains_iff_mem, h.busy.mem_iff,
    List.mem_map]

/-- A request that is the last to come goes behind those at least as urgent, and the
order of the others stays. -/
theorem Lines.insert (h : Lines requests tickets order)
    (hlast : ∀ u ∈ tickets, u.number ≤ t.number) :
    ∃ order', Lines (insertByPriority t.request requests) (t :: tickets) order' := by
  obtain ⟨hperm, hsorted, rfl⟩ := h
  have hlast' : ∀ u ∈ order, u.number ≤ t.number := fun u hu => hlast u (hperm.mem_iff.mp hu)
  suffices ∃ order', Lines (insertByPriority t.request (order.map (·.request)))
      (t :: order) order' by
    obtain ⟨order', hlines⟩ := this
    exact ⟨order', hlines.perm.trans (hperm.cons t), hlines.sorted, hlines.requests_eq⟩
  clear hperm hlast
  -- The insertion walks along the order, past every ticket that is as urgent as the new one.
  induction order with
  | nil => exact ⟨[t], .refl _, List.pairwise_singleton .., rfl⟩
  | cons u order ih =>
    obtain ⟨hu, hrest⟩ := List.pairwise_cons.mp hsorted
    obtain ⟨hnumber, hnumbers⟩ := List.forall_mem_cons.mp hlast'
    rw [List.map_cons, insertByPriority]
    split
    · rename_i hurgent
      refine ⟨t :: u :: order, .refl _, List.pairwise_cons.mpr ⟨?_, hsorted⟩, rfl⟩
      refine List.forall_mem_cons.mpr ⟨.inl hurgent, fun v hv => .inl ?_⟩
      have huv := hu v hv
      unfold Ticket.Precedes at huv
      omega
    · rename_i hurgent
      obtain ⟨order', hlines⟩ := ih hrest hnumbers
      refine ⟨u :: order', (hlines.perm.cons u).trans (.swap t u order),
        List.pairwise_cons.mpr ⟨?_, hlines.sorted⟩, congrArg _ hlines.requests_eq⟩
      intro v hv
      rcases List.mem_cons.mp (hlines.perm.mem_iff.mp hv) with rfl | hv
      · unfold Ticket.Precedes
        omega
      · exact hu v hv

theorem Lines.head_mem (h : Lines requests tickets (t :: order)) : t ∈ tickets :=
  h.perm.mem_iff.mp List.mem_cons_self

theorem Lines.precedes (h : Lines requests tickets (t :: order)) :
    ∀ u ∈ tickets, t.Precedes u := by
  intro u hu
  rcases List.mem_cons.mp (h.perm.mem_iff.mpr hu) with rfl | hu
  · exact .inr ⟨rfl, Nat.le_refl _⟩
  · exact (List.pairwise_cons.mp h.sorted).1 u hu

/-- Without the first ticket the others are left. -/
theorem Lines.perm_rest (h : Lines requests tickets (t :: order))
    (hnodup : (tickets.map (·.number)).Nodup) :
    (tickets.filter (·.number ≠ t.number)).Perm order := by
  have hnumbers := (h.perm.map (·.number)).nodup_iff.mpr hnodup
  rw [List.map_cons, List.nodup_cons] at hnumbers
  have hkept : (t :: order).filter (·.number ≠ t.number) = order := by
    rw [List.filter_cons_of_neg (by simp), List.filter_eq_self]
    intro u hu
    have hne : u.number ≠ t.number := fun heq =>
      hnumbers.1 (heq ▸ List.mem_map_of_mem hu)
    simpa using hne
  exact (h.perm.filter _).symm.trans (by rw [hkept])

/-- The first ticket, moved to the end of other tickets, is still there. -/
theorem Lines.perm_moved (h : Lines requests tickets (t :: order))
    (hnodup : (tickets.map (·.number)).Nodup) (others : List Ticket) :
    (tickets.filter (·.number ≠ t.number) ++ (others ++ [t])).Perm (tickets ++ others) := by
  refine ((h.perm_rest hnodup).append (List.perm_append_singleton ..)).trans ?_
  exact List.perm_middle.trans (h.perm.append_right others)

/-- The first request of the queue is the one that the docket finds. -/
theorem Docket.Regular.next?_eq (h : d.Regular)
    (hlines : Lines requests d.pending (t :: order)) : d.next? = some t := by
  have hfirst := hlines.precedes
  have ht := hlines.head_mem
  cases hnext : d.next? with
  | none =>
    have hmissed := List.find?_eq_none.mp hnext t ht
    exact absurd (by simpa using hfirst) hmissed
  | some u =>
    have hu : u ∈ d.pending := List.mem_of_find?_eq_some hnext
    have hbefore : u.Precedes t := by
      have hall := List.find?_some hnext
      simp only [List.all_eq_true, decide_eq_true_eq] at hall
      exact hall t ht
    rw [List.inj_on_of_nodup_map h.nodup_pending hu ht (hbefore.number_eq (hfirst u hu))]

/-! ## One operation -/

theorem Mirrors.submit_eq (h : Mirrors d q) (r : Request) :
    q.submit r =
      if d.closed || d.isBusy r.id then (q, false)
      else
        ({ q with
            pending := insertByPriority r q.pending
            busy := r.id :: q.busy }, true) := by
  rw [submit, h.closed, h.isBusy_eq]

theorem Mirrors.submit (h : Mirrors d q) (r : Request) :
    Mirrors (d.submit r) (q.submit r).1 := by
  rw [h.submit_eq, Docket.submit]
  split
  · exact h
  · rename_i hfree
    generalize ht : (⟨d.accepted.length, r⟩ : Ticket) = t
    have hnumber : t.number = d.accepted.length := ht ▸ rfl
    have hrequest : t.request = r := ht ▸ rfl
    have hpending : (d.pending ++ [t]).Perm (t :: d.pending) := List.perm_append_singleton ..
    have hids : ((d.pending ++ [t] ++ d.running).map (·.id)).Perm
        (t.id :: (d.pending ++ d.running).map (·.id)) :=
      (hpending.append_right d.running).map _
    have hfresh : t.id ∉ (d.pending ++ d.running).map (·.id) := by
      intro hmem
      obtain ⟨u, hu, hid⟩ := List.mem_map.mp hmem
      have hbusy : d.isBusy r.id = true :=
        Docket.isBusy_iff.mpr ⟨u, hu, hid.trans (congrArg Request.id hrequest)⟩
      exact hfree (by rw [hbusy, Bool.or_true])
    have hregular := h.regular
    -- The new number is above all others, so the ticket is the last of its equals.
    obtain ⟨order, hlines⟩ := h.pending
    obtain ⟨order', hlines'⟩ := hlines.insert (t := t)
      fun u hu => hnumber ▸ Nat.le_of_lt (hregular.number_lt hu)
    constructor
    · constructor
      · rw [List.map_append, hregular.numbers, List.length_append, List.length_singleton,
          List.range_succ, List.map_singleton, hnumber]
      · exact (hpending.append_right d.taken).trans
          ((hregular.conserved.cons t).trans (List.perm_append_singleton ..).symm)
      · exact hregular.running
      · exact hids.nodup_iff.mpr (List.nodup_cons.mpr ⟨hfresh, hregular.single⟩)
    · rw [← hrequest]
      exact ⟨order', hlines'.perm.trans hpending.symm, hlines'.sorted, hlines'.requests_eq⟩
    · rw [← hrequest]
      exact (h.busy.cons t.id).trans hids.symm
    · exact h.inFlight
    · exact h.closed

/-- Taking from a queue takes the next request of its docket, or nothing if no request is
pending. -/
theorem Mirrors.take_cases (h : Mirrors d q) :
    (d.pending = [] ∧ q.take? = none ∧ d.take = d) ∨
    ∃ t q', t ∈ d.pending ∧ (∀ u ∈ d.pending, t.Precedes u) ∧
      q.take? = some (t.request, q') ∧ d.take.taken = d.taken ++ [t] ∧
      d.take.accepted = d.accepted ∧ Mirrors d.take q' := by
  obtain ⟨order, hlines⟩ := h.pending
  cases order with
  | nil =>
    have hempty : d.pending = [] := List.nil_perm.mp hlines.perm
    refine .inl ⟨hempty, ?_, ?_⟩
    · rw [take?, hlines.requests_eq]
      rfl
    · rw [Docket.take, Docket.next?, hempty]
      rfl
  | cons t order =>
    have hregular := h.regular
    have htake : q.take? = some (t.request,
        { q with pending := order.map (·.request), inFlight := q.inFlight + 1 }) := by
      rw [take?, hlines.requests_eq]
      rfl
    have hmove := hlines.perm_moved hregular.nodup_pending
    refine .inr ⟨t, _, hlines.head_mem, hlines.precedes, htake, ?_⟩
    rw [Docket.take, hregular.next?_eq hlines]
    refine ⟨rfl, rfl, ?_⟩
    constructor
    · exact {
        numbers := hregular.numbers
        conserved := (hmove d.taken).trans hregular.conserved
        running := hregular.running.append_right [t]
        single := ((hmove d.running).map _).nodup_iff.mpr hregular.single }
    · exact ⟨order, (hlines.perm_rest hregular.nodup_pending).symm,
        (List.pairwise_cons.mp hlines.sorted).2, rfl⟩
    · exact h.busy.trans ((hmove d.running).map _).symm
    · simp only [List.length_append, List.length_singleton, h.inFlight]
    · exact h.closed

theorem Mirrors.takeOpen?_eq (h : Mirrors d q) :
    q.takeOpen? = if d.closed then none else q.take? := by
  rw [takeOpen?, h.closed]

theorem Mirrors.take?_eq_none_iff (h : Mirrors d q) : q.take? = none ↔ d.pending = [] := by
  rcases h.take_cases with ⟨hempty, hnone, -⟩ | ⟨t, q', ht, -, hsome, -⟩
  · exact ⟨fun _ => hempty, fun _ => hnone⟩
  · refine ⟨fun hnone => ?_, fun hempty => ?_⟩
    · cases hsome.symm.trans hnone
    · rw [hempty] at ht
      cases ht

theorem Mirrors.takeOpen?_eq_none_iff (h : Mirrors d q) :
    q.takeOpen? = none ↔ d.closed = true ∨ d.pending = [] := by
  rw [h.takeOpen?_eq, ← h.take?_eq_none_iff]
  cases d.closed with
  | true => simp
  | false => simp

/-- What is taken precedes everything that is pending. -/
theorem Mirrors.exists_of_take? (h : Mirrors d q) {r : Request} {q' : Queue}
    (htake : q.take? = some (r, q')) :
    ∃ t ∈ d.pending, t.request = r ∧ ∀ u ∈ d.pending, t.Precedes u := by
  rcases h.take_cases with ⟨-, hnone, -⟩ | ⟨t, q', ht, hfirst, hsome, -⟩
  · cases hnone.symm.trans htake
  · cases hsome.symm.trans htake
    exact ⟨t, ht, rfl, hfirst⟩

theorem Mirrors.submit_accepts_iff (h : Mirrors d q) (r : Request) :
    (q.submit r).2 = true ↔ d.closed ≠ true ∧ d.isBusy r.id ≠ true := by
  rw [h.submit_eq]
  split
  · rename_i hrefused
    rcases Bool.or_eq_true_iff.mp hrefused with hclosed | hbusy
    · simp [hclosed]
    · simp [hbusy]
  · rename_i hfree
    simpa using hfree

/-- Completing a running request frees its function. -/
theorem Mirrors.complete (h : Mirrors d q) (ht : t ∈ d.running) :
    Mirrors { d with running := d.running.filter (·.id ≠ t.id) } (q.complete t.id) := by
  have hregular := h.regular
  have hsingle := hregular.single
  rw [List.map_append, List.nodup_append] at hsingle
  obtain ⟨-, hrunning, hapart⟩ := hsingle
  have hpending : d.pending.filter (·.id ≠ t.id) = d.pending := by
    rw [List.filter_eq_self]
    intro u hu
    have hne : u.id ≠ t.id :=
      hapart _ (List.mem_map_of_mem hu) _ (List.mem_map_of_mem ht)
    simpa using hne
  have hsub : (d.running.filter (·.id ≠ t.id)).Sublist d.running := List.filter_sublist
  constructor
  · exact {
      numbers := hregular.numbers
      conserved := hregular.conserved
      running := hsub.trans hregular.running
      single := hregular.single.sublist (((List.Sublist.refl _).append hsub).map _) }
  · exact h.pending
  · have hids : ((d.pending ++ d.running).map (·.id)).filter (· ≠ t.id) =
        (d.pending ++ d.running.filter (·.id ≠ t.id)).map (·.id) := by
      rw [List.filter_map, List.filter_append]
      change (d.pending.filter (·.id ≠ t.id) ++ _).map _ = _
      rw [hpending]
      rfl
    exact hids ▸ h.busy.filter _
  · -- One running request is for the function, so one leaves.
    have hcount : d.running.countP (·.id = t.id) = 1 := by
      have hone := List.count_eq_one_of_mem hrunning (List.mem_map_of_mem ht)
      rw [List.count, List.countP_map] at hone
      exact hone
    have hsplit := List.length_eq_countP_add_countP (l := d.running) (fun u => u.id = t.id)
    simp only [decide_eq_true_eq] at hsplit
    simp only [Queue.complete, h.inFlight, ← List.countP_eq_length_filter, ne_eq]
    omega
  · exact h.closed

/-- Every permitted operation keeps queue and docket together, and the docket writes down
what the queue answers. -/
theorem Mirrors.after (h : Mirrors d q) {op : Operation} (hop : d.permits op = true) :
    Mirrors (d.after op) (q.after op) ∧
    (d.after op).accepted.map (·.request) =
      d.accepted.map (·.request) ++ (q.accepted? op).toList ∧
    (d.after op).taken.map (·.request) =
      d.taken.map (·.request) ++ (q.taken? op).toList := by
  have htake : Mirrors d.take ((q.take?.map Prod.snd).getD q) ∧
      d.take.accepted = d.accepted ∧
      d.take.taken.map (·.request) =
        d.taken.map (·.request) ++ (q.take?.map Prod.fst).toList := by
    rcases h.take_cases with ⟨-, hnone, hsame⟩ | ⟨t, q', -, -, hsome, htaken, haccepted, hmirrors⟩
    · rw [hnone, hsame]
      exact ⟨h, rfl, (List.append_nil _).symm⟩
    · rw [hsome, htaken, haccepted]
      exact ⟨hmirrors, rfl, List.map_append⟩
  cases op with
  | submit r =>
    refine ⟨h.submit r, ?_, ?_⟩
    · simp only [Docket.after, accepted?, h.submit_eq, Docket.submit]
      split
      · simp
      · simp
    · simp only [Docket.after, taken?, Docket.submit]
      split
      · simp
      · simp
  | take =>
    refine ⟨htake.1, ?_, htake.2.2⟩
    simp only [Docket.after, accepted?, htake.2.1, Option.toList_none, List.append_nil]
  | await =>
    simp only [Docket.after, Queue.after, accepted?, taken?, h.takeOpen?_eq]
    split
    · exact ⟨h, (List.append_nil _).symm, (List.append_nil _).symm⟩
    · exact ⟨htake.1, by rw [htake.2.1]; exact (List.append_nil _).symm, htake.2.2⟩
  | complete id =>
    obtain ⟨t, ht, hid⟩ := List.any_eq_true.mp hop
    obtain rfl := of_decide_eq_true hid
    exact ⟨h.complete ht, (List.append_nil _).symm, (List.append_nil _).symm⟩
  | close =>
    refine ⟨?_, (List.append_nil _).symm, (List.append_nil _).symm⟩
    exact ⟨⟨h.regular.numbers, h.regular.conserved, h.regular.running, h.regular.single⟩,
      h.pending, h.busy, h.inFlight, rfl⟩

end Mirrors

theorem take?_of_takeOpen? {q : Queue} {x : Request × Queue} (h : q.takeOpen? = some x) :
    q.take? = some x := by
  unfold takeOpen? at h
  split at h
  · cases h
  · exact h

/-- A request that is turned away changes nothing. -/
theorem submit_fst_of_refused {q : Queue} {r : Request} (h : (q.submit r).2 = false) :
    (q.submit r).1 = q := by
  unfold submit at h ⊢
  split
  · rfl
  · rename_i hfree
    rw [if_neg hfree] at h
    cases h

/-! ## Whole histories -/

theorem mirrors_empty : Mirrors {} {} where
  regular := ⟨rfl, .refl _, .refl _, List.nodup_nil⟩
  pending := ⟨[], .refl _, .nil, rfl⟩
  busy := .refl _
  inFlight := rfl
  closed := rfl

theorem Mirrors.afterAll {d : Docket} {q : Queue} (h : Mirrors d q) {ops : List Operation}
    (hops : d.permitsAll ops = true) :
    Mirrors (d.afterAll ops) (q.afterAll ops) ∧
    (d.afterAll ops).accepted.map (·.request) =
      d.accepted.map (·.request) ++ yields accepted? q ops ∧
    (d.afterAll ops).taken.map (·.request) =
      d.taken.map (·.request) ++ yields taken? q ops := by
  induction ops generalizing d q with
  | nil => exact ⟨h, (List.append_nil _).symm, (List.append_nil _).symm⟩
  | cons op ops ih =>
    obtain ⟨hop, hrest⟩ := Bool.and_eq_true_iff.mp hops
    obtain ⟨hmirrors, haccepted, htaken⟩ := h.after hop
    obtain ⟨hall, hallAccepted, hallTaken⟩ := ih hmirrors hrest
    refine ⟨hall, hallAccepted.trans ?_, hallTaken.trans ?_⟩
    · rw [haccepted, yields, List.append_assoc]
    · rw [htaken, yields, List.append_assoc]

theorem Docket.closed_after_iff (d : Docket) (op : Operation) :
    (d.after op).closed = true ↔ d.closed = true ∨ op = .close := by
  have htake : d.take.closed = d.closed := by
    unfold Docket.take
    split
    · rfl
    · rfl
  cases op with
  | submit r =>
    simp only [Docket.after, Docket.submit, reduceCtorEq, or_false]
    split
    · rfl
    · rfl
  | take => simp only [Docket.after, htake, reduceCtorEq, or_false]
  | await =>
    simp only [Docket.after, reduceCtorEq, or_false]
    split
    · rfl
    · rw [htake]
  | complete id => simp only [Docket.after, reduceCtorEq, or_false]
  | close => simp only [Docket.after, or_true]

/-- A docket is closed once its history closes it. -/
theorem Docket.closed_afterAll_iff (d : Docket) (ops : List Operation) :
    (d.afterAll ops).closed = true ↔ d.closed = true ∨ Operation.close ∈ ops := by
  induction ops generalizing d with
  | nil => simp [Docket.afterAll]
  | cons op ops ih =>
    rw [Docket.afterAll, List.foldl_cons]
    refine (ih (d.after op)).trans ?_
    rw [d.closed_after_iff, List.mem_cons, or_assoc, eq_comm (a := op)]

/-- A queue does right by its requests.  After every history in which only running
requests are completed, with its docket beside it:

* the busy functions are those with a pending or running request, and no function has two;
* the queue counts the running requests;
* its pending requests are the docket's, the more urgent first and equally urgent ones in
  the order of submission;
* the docket's requests are those that the queue accepted and handed out, and an accepted
  request is pending or was taken, and neither both nor twice;
* a request is handed out if one is pending (to one that waits, if the queue is open), and
  then it is the first submitted of the most urgent ones;
* a request is accepted exactly when the queue was never closed and the function is not
  busy, and a request that is turned away changes nothing. -/
theorem queue_keeps_docket (ops : List Operation)
    (hops : Docket.permitsAll {} ops = true) :
    let q := Queue.afterAll {} ops
    let d := Docket.afterAll {} ops
    (∀ id, q.isBusy id = true ↔ ∃ t ∈ d.pending ++ d.running, t.id = id) ∧
    ((d.pending ++ d.running).map (·.id)).Nodup ∧
    q.inFlight = d.running.length ∧
    (∃ order : List Ticket, order.Perm d.pending ∧ order.Pairwise Ticket.Precedes ∧
      q.pending = order.map (·.request)) ∧
    d.accepted.map (·.request) = yields accepted? {} ops ∧
    d.taken.map (·.request) = yields taken? {} ops ∧
    d.accepted.map (·.number) = List.range d.accepted.length ∧
    d.running.Sublist d.taken ∧
    (d.pending ++ d.taken).Perm d.accepted ∧
    ((d.pending ++ d.taken).map (·.number)).Nodup ∧
    (q.take? = none ↔ d.pending = []) ∧
    (q.takeOpen? = none ↔ Operation.close ∈ ops ∨ d.pending = []) ∧
    (∀ r q', q.take? = some (r, q') ∨ q.takeOpen? = some (r, q') →
      ∃ t ∈ d.pending, t.request = r ∧ ∀ u ∈ d.pending, t.Precedes u) ∧
    (∀ r, (q.submit r).2 = true ↔
      Operation.close ∉ ops ∧ ∀ t ∈ d.pending ++ d.running, t.id ≠ r.id) ∧
    (∀ r, (q.submit r).2 = false → (q.submit r).1 = q) := by
  intro q d
  obtain ⟨h, haccepted, htaken⟩ := mirrors_empty.afterAll hops
  have hregular := h.regular
  have hclosed : d.closed = true ↔ Operation.close ∈ ops := by
    rw [Docket.closed_afterAll_iff {} ops]
    simp
  obtain ⟨order, hlines⟩ := h.pending
  refine ⟨fun id => ?_, hregular.single, h.inFlight,
    ⟨order, hlines.perm, hlines.sorted, hlines.requests_eq⟩, haccepted, htaken,
    hregular.numbers, hregular.running, hregular.conserved,
    (hregular.conserved.map _).nodup_iff.mpr hregular.nodup_numbers, h.take?_eq_none_iff,
    ?_, ?_, fun r => ?_, fun r => submit_fst_of_refused⟩
  · exact (Bool.eq_iff_iff.mp (h.isBusy_eq id)).trans Docket.isBusy_iff
  · rw [← hclosed]
    exact h.takeOpen?_eq_none_iff
  · intro r q' htake
    exact h.exists_of_take? (htake.elim (fun hsome => hsome) take?_of_takeOpen?)
  · rw [← hclosed]
    refine (h.submit_accepts_iff r).trans (and_congr_right fun _ => ?_)
    rw [ne_eq, Docket.isBusy_iff]
    push Not
    rfl

/-- A request for a function, with nothing to compile. -/
def requestFor (id : FunctionId) (priority : Nat) : Request where
  id := id
  program := .empty
  priority := priority

/-- Three functions are submitted, the second and third equally urgent.  The second is
turned away while it is running and accepted again once it is completed; nothing is
accepted after the queue is closed, but what is pending can still be taken. -/
def rushHour : List Operation :=
  [.submit (requestFor ⟨1⟩ 1), .submit (requestFor ⟨2⟩ 5), .submit (requestFor ⟨3⟩ 5), .take,
   .submit (requestFor ⟨2⟩ 7), .await, .complete ⟨2⟩, .submit (requestFor ⟨2⟩ 0), .close,
   .submit (requestFor ⟨4⟩ 9), .await, .take]

theorem rushHour_keeps_docket :
    Docket.permitsAll {} rushHour = true ∧
    (yields accepted? {} rushHour).map (·.id) = [⟨1⟩, ⟨2⟩, ⟨3⟩, ⟨2⟩] ∧
    (yields taken? {} rushHour).map (·.id) = [⟨2⟩, ⟨3⟩, ⟨1⟩] ∧
    (Queue.afterAll {} rushHour).inFlight = 2 ∧
    (∀ id, (Queue.afterAll {} rushHour).isBusy id = true ↔ id ∈ [⟨2⟩, ⟨3⟩, ⟨1⟩]) ∧
    (Queue.afterAll {} rushHour).take? ≠ none ∧
    (Queue.afterAll {} rushHour).takeOpen? = none := by
  have hpermits : Docket.permitsAll {} rushHour = true := by decide
  have hbusy : ((Docket.afterAll {} rushHour).pending ++
      (Docket.afterAll {} rushHour).running).map (·.id) = [⟨2⟩, ⟨3⟩, ⟨1⟩] := by decide
  obtain ⟨hids, -, hinFlight, -, haccepted, htaken, -, -, -, -, htake, hopen, -⟩ :=
    queue_keeps_docket rushHour hpermits
  refine ⟨hpermits, ?_, ?_, hinFlight, fun id => ?_, ?_, ?_⟩
  · rw [← haccepted]
    decide
  · rw [← htaken]
    decide
  · rw [hids, ← hbusy, List.mem_map]
  · rw [ne_eq, htake]
    exact List.ne_nil_of_length_pos (by decide)
  · exact hopen.mpr (.inl (by simp [rushHour]))

end BaselineTier.Queue
