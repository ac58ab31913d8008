import Chaos.AcceptSlots
import Chaos.GuardedRuns
import Mathlib.Data.List.Perm.Basic

/-!
# Where the accept slots are

A slot goes from the kernel to `m_acceptedq` with its packet and back with `Handle`. It gets lost where a call fails on
the way, and where `AcceptEx` succeeds at once it is in both places, since the packet comes too.
-/
namespace Chaos

open GuardedRuns

/-- The slot is posted and nothing else happens to it: `AcceptEx` is pending, or it succeeds and `AcceptComplete` gets
no further than `setsockopt`. -/
def AsynAcceptCalls.posts (c : AsynAcceptCalls) : Bool :=
  c.getsockname && c.getsockopt && c.socket && match c.acceptEx with
    | .done => !c.setsockopt
    | .pending => true
    | .failed => false

namespace IocpListener

variable {s t : IocpListener} {c : AsynAcceptCalls} {slot fd k : ℕ} {rest : List ℕ} {p : PostedAccept}
  {packet : Option Bool} {errcb bOk setsockopt : Bool} {calls : ℕ → AsynAcceptCalls} {op : AcceptOp}

/-- How often a slot is posted or waits to be posted again. -/
def held (s : IocpListener) (slot : ℕ) : ℕ :=
  s.posted.countP (fun p => p.slot = slot) + s.acceptedq.count slot

/-- The packets of a connection in the completion port. -/
def inPort (s : IocpListener) (fd : ℕ) : ℕ := s.posted.countP (fun p => p.fd = fd ∧ p.packet = some true)

/-- Each slot is posted once or waits in `m_acceptedq`. -/
def Conserved (s : IocpListener) : Prop := ∀ slot < initAsynAccepting, s.held slot = 1

/-- Each accepted connection was delivered once, or its packet is still on the way and it was not delivered. -/
def DeliveredOnce (s : IocpListener) : Prop := ∀ fd ∈ s.accepted, s.delivered.count fd + s.inPort fd = 1

/-- The operation succeeded and so does what is called for it. -/
def KeepsSlot (s : IocpListener) : AcceptOp → Prop
  | .complete k setsockopt => setsockopt = true ∧ ∀ p, s.posted[k]? = some p → p.packet = some true
  | .handle c => s.acceptedq ≠ [] → c.posts = true
  | .kernel _ _ | .cancel => True

/-- What holds along the way, with the slots of `rest` still to be posted. -/
structure Tracked (rest : List ℕ) (s : IocpListener) : Prop where
  slots : ∀ slot, s.held slot + rest.count slot = if slot < initAsynAccepting then 1 else 0
  alive : ∀ slot < initAsynAccepting, ∃ fd, s.acceptOls[slot]? = some ⟨fd, false⟩
  bound : ∀ p ∈ s.posted, s.acceptOls[p.slot]? = some ⟨some p.fd, false⟩
  fds : ∀ fd, s.delivered.count fd + s.posted.countP (fun p => p.fd = fd) ≤ if fd < s.sockets then 1 else 0
  accepted : ∀ fd ∈ s.accepted, 1 ≤ s.delivered.count fd + s.inPort fd

theorem inPort_le : s.inPort fd ≤ s.posted.countP (fun p => p.fd = fd) := by
  apply List.countP_mono_left
  intro p _ hp
  simp only [decide_eq_true_eq] at hp ⊢
  exact hp.1

theorem Tracked.conserved (h : Tracked [] s) : Conserved s := by
  intro slot hslot
  have := h.slots slot
  rwa [if_pos hslot] at this

theorem Tracked.deliveredOnce (h : Tracked rest s) : DeliveredOnce s := by
  intro fd hfd
  have hle := h.fds fd
  have hone := h.accepted fd hfd
  have hport : s.inPort fd ≤ s.posted.countP (fun p => p.fd = fd) := inPort_le
  split at hle <;> omega

/-- The rest of the listener plays no part. -/
theorem Tracked.frame (h : Tracked rest s) (refcnt : ℤ) (curEv : ℕ) (registered : Bool) :
    Tracked rest { s with refcnt := refcnt, curEv := curEv, registered := registered } :=
  ⟨h.slots, h.alive, h.bound, h.fds, h.accepted⟩

theorem tracked_new : Tracked (List.range initAsynAccepting) new where
  slots slot := by
    have hnone : new.held slot = 0 := rfl
    simp only [hnone, Nat.zero_add, (@List.nodup_range initAsynAccepting).count, List.mem_range]
  alive slot hslot := ⟨none, List.getElem?_replicate_of_lt hslot⟩
  bound := nofun
  fds fd := Nat.zero_le _
  accepted := nofun

/-! ## Posting a slot -/

theorem held_post : (s.post slot fd packet).held k = s.held k + if slot = k then 1 else 0 := by
  simp only [held, post, List.countP_append, List.countP_singleton, decide_eq_true_eq]
  omega

theorem inPort_post : (s.post slot fd packet).inPort k = s.inPort k + if fd = k ∧ packet = some true then 1 else 0 := by
  simp only [inPort, post, List.countP_append, List.countP_singleton, decide_eq_true_eq]

theorem acceptOls_setAcceptfd_self (h : ∃ fd, s.acceptOls[slot]? = some ⟨fd, false⟩) :
    (s.setAcceptfd slot true).acceptOls[slot]? = some ⟨some s.sockets, false⟩ := by
  obtain ⟨fd, hfd⟩ := h
  simp [setAcceptfd, hfd]

theorem acceptOls_setAcceptfd_ne (h : slot ≠ k) : (s.setAcceptfd slot true).acceptOls[k]? = s.acceptOls[k]? := by
  simp [setAcceptfd, h]

theorem Tracked.held_eq_zero (h : Tracked (slot :: rest) s) : s.held slot = 0 := by
  have hslot := h.slots slot
  rw [List.count_cons_self] at hslot
  split at hslot <;> omega

theorem Tracked.slot_lt (h : Tracked (slot :: rest) s) : slot < initAsynAccepting := by
  have hslot := h.slots slot
  rw [List.count_cons_self] at hslot
  split at hslot
  · assumption
  · omega

/-- A slot that is still to be posted is not posted. -/
theorem Tracked.slot_ne (h : Tracked (slot :: rest) s) (hp : p ∈ s.posted) : slot ≠ p.slot := by
  intro heq
  have hpos : 0 < s.posted.countP (fun p => p.slot = slot) := List.countP_pos_iff.mpr ⟨p, hp, by simp [heq]⟩
  have hheld := h.held_eq_zero
  rw [held] at hheld
  omega

theorem Tracked.post (h : Tracked (slot :: rest) s) (packet : Option Bool) :
    Tracked rest ((s.setAcceptfd slot true).post slot s.sockets packet) where
  slots k := by
    have hk := h.slots k
    have hsame : (s.setAcceptfd slot true).held k = s.held k := rfl
    rw [List.count_cons] at hk
    rw [held_post, hsame]
    simp only [beq_iff_eq] at hk
    omega
  alive k hk := by
    by_cases hslot : slot = k
    · subst hslot
      exact ⟨_, acceptOls_setAcceptfd_self (h.alive slot hk)⟩
    · obtain ⟨fd, hfd⟩ := h.alive k hk
      exact ⟨fd, (acceptOls_setAcceptfd_ne hslot).trans hfd⟩
  bound p hp := by
    cases List.mem_append.mp hp with
    | inl hold => exact (acceptOls_setAcceptfd_ne (h.slot_ne hold)).trans (h.bound p hold)
    | inr hnew =>
      obtain rfl := List.mem_singleton.mp hnew
      exact acceptOls_setAcceptfd_self (h.alive slot h.slot_lt)
  fds fd := by
    have hfd := h.fds fd
    simp only [IocpListener.post, setAcceptfd, List.countP_append, List.countP_singleton, decide_eq_true_eq, if_true]
    split at hfd <;> split <;> split <;> omega
  accepted fd hfd := by
    have hport : ((s.setAcceptfd slot true).post slot s.sockets packet).inPort fd =
      s.inPort fd + if s.sockets = fd ∧ packet = some true then 1 else 0 := inPort_post
    have hdelivered : ((s.setAcceptfd slot true).post slot s.sockets packet).delivered = s.delivered := rfl
    rw [hport, hdelivered]
    by_cases hpacket : packet = some true
    · have hmem : fd ∈ s.accepted ++ [s.sockets] := by simpa [IocpListener.post, hpacket, setAcceptfd] using hfd
      cases List.mem_append.mp hmem with
      | inl hold =>
        have := h.accepted fd hold
        omega
      | inr hnew =>
        rw [if_pos ⟨(List.mem_singleton.mp hnew).symm, hpacket⟩]
        omega
    · have hmem : fd ∈ s.accepted := by simpa [IocpListener.post, hpacket, setAcceptfd] using hfd
      have := h.accepted fd hmem
      omega

/-! ## Completion -/

theorem acceptComplete_kept (h : s.acceptOls[slot]? = some ⟨some fd, false⟩) :
    s.acceptComplete slot true true =
      { s with
        refcnt := s.refcnt - 1, acceptedq := s.acceptedq ++ [slot], delivered := s.delivered ++ [fd]
        curEv := if s.registered then s.curEv + 1 else s.curEv } := by
  simp [acceptComplete, h, pushEvent]

/-- A completion is dropped, or the slot comes to `m_acceptedq` and its connection to the callback. -/
theorem acceptComplete_cases :
    s.acceptComplete slot bOk setsockopt = { s with refcnt := s.refcnt - 1 } ∨
      bOk = true ∧ setsockopt = true ∧ ∃ fd, s.acceptOls[slot]? = some ⟨some fd, false⟩ := by
  cases hlo : s.acceptOls[slot]? with
  | none => simp [acceptComplete, hlo]
  | some lo =>
    obtain ⟨acceptfd, eventDestroy⟩ := lo
    cases eventDestroy with
    | true => simp [acceptComplete, hlo]
    | false =>
      cases bOk with
      | false => simp [acceptComplete, hlo]
      | true =>
        cases acceptfd with
        | none => simp [acceptComplete, hlo]
        | some fd =>
          cases setsockopt with
          | false => simp [acceptComplete, hlo]
          | true => exact .inr ⟨rfl, rfl, fd, rfl⟩

theorem acceptComplete_dropped (h : ¬ (bOk = true ∧ setsockopt = true)) :
    s.acceptComplete slot bOk setsockopt = { s with refcnt := s.refcnt - 1 } := by
  apply acceptComplete_cases.resolve_right
  rintro ⟨hok, hset, -⟩
  exact h ⟨hok, hset⟩

theorem held_le_acceptComplete : s.held k ≤ (s.acceptComplete slot bOk setsockopt).held k := by
  obtain hdropped | ⟨rfl, rfl, fd, hfd⟩ := @acceptComplete_cases s slot bOk setsockopt
  · rw [hdropped]
    exact Nat.le_refl _
  · rw [acceptComplete_kept hfd]
    simp only [held, List.count_append]
    omega

/-! ## A call of `AsynAccept` -/

theorem held_le_asynAccept : s.held k ≤ (s.asynAccept slot c).2.held k := by
  have hpost : ∀ packet, s.held k ≤ ((s.setAcceptfd slot true).post slot s.sockets packet).held k := by
    intro packet
    rw [held_post]
    exact Nat.le_add_right _ _
  unfold asynAccept
  split
  · exact Nat.le_refl _
  · split
    · exact Nat.le_refl _
    · split
      · exact Nat.le_refl _
      · cases c.acceptEx with
        | done => exact Nat.le_trans (hpost _) held_le_acceptComplete
        | pending => exact hpost _
        | failed => exact Nat.le_refl _

/-- Where the slot is posted the call keeps track of it. -/
theorem Tracked.asynAccept (h : Tracked (slot :: rest) s) (hc : c.posts = true) :
    (s.asynAccept slot c).1 = true ∧ Tracked rest (s.asynAccept slot c).2 := by
  obtain ⟨getsockname, getsockopt, socket, acceptEx, setsockopt⟩ := c
  simp only [AsynAcceptCalls.posts, Bool.and_eq_true] at hc
  obtain ⟨⟨⟨rfl, rfl⟩, rfl⟩, hex⟩ := hc
  cases acceptEx with
  | done =>
    obtain rfl : setsockopt = false := by simpa using hex
    have hpost := h.post (some true)
    have hdropped := @acceptComplete_dropped ((s.setAcceptfd slot true).post slot s.sockets (some true)) slot true false
      (by decide)
    refine ⟨rfl, ?_⟩
    simp only [IocpListener.asynAccept, Bool.not_true, Bool.false_eq_true, if_false, hdropped]
    exact hpost.frame _ _ _
  | pending => exact ⟨rfl, h.post none⟩
  | failed => cases hex

/-- Where it is not posted it is nowhere, or in both places. -/
theorem Tracked.asynAccept_of_not_posts (h : Tracked (slot :: rest) s) (hc : c.posts = false) :
    ((s.asynAccept slot c).1 = false ∧ (s.asynAccept slot c).2.held slot = 0) ∨
      (s.asynAccept slot c).2.held slot = 2 := by
  obtain ⟨getsockname, getsockopt, socket, acceptEx, setsockopt⟩ := c
  have hnone := h.held_eq_zero
  cases getsockname with
  | false => exact .inl ⟨rfl, hnone⟩
  | true =>
    cases getsockopt with
    | false => exact .inl ⟨rfl, hnone⟩
    | true =>
      cases socket with
      | false => exact .inl ⟨rfl, hnone⟩
      | true =>
        cases acceptEx with
        | failed => exact .inl ⟨rfl, hnone⟩
        | pending => cases hc
        | done =>
          obtain rfl : setsockopt = true := by simpa [AsynAcceptCalls.posts] using hc
          right
          have hheld : ((s.setAcceptfd slot true).post slot s.sockets (some true)).held slot = 1 := by
            rw [held_post, if_pos rfl]
            exact congrArg (· + 1) hnone
          have hkept := @acceptComplete_kept ((s.setAcceptfd slot true).post slot s.sockets (some true)) slot s.sockets
            (acceptOls_setAcceptfd_self (h.alive slot h.slot_lt))
          simp only [IocpListener.asynAccept, Bool.not_true, Bool.false_eq_true, if_false, hkept]
          simp only [held, List.count_append, List.count_singleton_self] at hheld ⊢
          omega

/-! ## Starting -/

theorem held_le_startFrom {slots : List ℕ} : s.held k ≤ (startFrom errcb calls slots s).held k := by
  induction slots generalizing s with
  | nil => exact Nat.le_refl _
  | cons slot slots ih =>
    rw [startFrom]
    split
    · exact Nat.le_trans held_le_asynAccept ih
    · exact held_le_asynAccept

theorem Tracked.startFrom {slots : List ℕ} (h : Tracked slots s) (hc : ∀ slot ∈ slots, (calls slot).posts = true) :
    Tracked [] (s.startFrom errcb calls slots) := by
  induction slots generalizing s with
  | nil => exact h
  | cons slot slots ih =>
    obtain ⟨hslot, hslots⟩ := List.forall_mem_cons.mp hc
    obtain ⟨hret, htracked⟩ := h.asynAccept hslot
    rw [IocpListener.startFrom, if_pos hret]
    exact ih htracked hslots

/-- The slot that is not posted stays where it is. -/
theorem Tracked.not_conserved_startFrom {slots : List ℕ} (h : Tracked slots s)
    (hc : ¬ ∀ slot ∈ slots, (calls slot).posts = true) : ¬ Conserved (s.startFrom errcb calls slots) := by
  induction slots generalizing s with
  | nil => exact absurd nofun hc
  | cons slot slots ih =>
    rw [List.forall_mem_cons] at hc
    rw [IocpListener.startFrom]
    cases hslot : (calls slot).posts with
    | true =>
      obtain ⟨hret, htracked⟩ := h.asynAccept hslot
      rw [if_pos hret]
      exact ih htracked fun hslots => hc ⟨hslot, hslots⟩
    | false =>
      intro hconserved
      have hone := hconserved slot h.slot_lt
      obtain ⟨hret, hnone⟩ | htwo := h.asynAccept_of_not_posts hslot
      · rw [if_neg (by rw [hret]; decide)] at hone
        have hsame : ((s.asynAccept slot (calls slot)).2.callErr errcb).held slot = 0 := hnone
        omega
      · split at hone
        · have := @held_le_startFrom (s.asynAccept slot (calls slot)).2 slot errcb calls slots
          omega
        · have hsame : ((s.asynAccept slot (calls slot)).2.callErr errcb).held slot = 2 := htwo
          omega

/-! ## Steps -/

theorem countP_eraseIdx (hp : s.posted[k]? = some p) (P : PostedAccept → Bool) :
    s.posted.countP P = (s.posted.eraseIdx k).countP P + if P p then 1 else 0 := by
  obtain ⟨hk, rfl⟩ := List.getElem?_eq_some_iff.mp hp
  rw [← (List.getElem_cons_eraseIdx_perm hk).countP_eq, List.countP_cons]

/-- The end of an operation leaves the slot with the kernel. -/
theorem Tracked.kernel (h : Tracked rest s) (hp : s.posted[k]? = some p) (hpacket : p.packet = none) :
    Tracked rest { s with
      posted := s.posted.eraseIdx k ++ [{ p with packet := some bOk }]
      accepted := if bOk then s.accepted ++ [p.fd] else s.accepted } where
  slots slot := by
    have hslot := h.slots slot
    simp only [held, countP_eraseIdx hp] at hslot
    simpa only [held, List.countP_append, List.countP_singleton] using hslot
  alive := h.alive
  bound q hq := by
    cases List.mem_append.mp hq with
    | inl hold => exact h.bound q (List.mem_of_mem_eraseIdx hold)
    | inr hnew =>
      obtain rfl := List.mem_singleton.mp hnew
      exact h.bound p (List.mem_of_getElem? hp)
  fds fd := by
    have hfd := h.fds fd
    simp only [countP_eraseIdx hp] at hfd
    simpa only [List.countP_append, List.countP_singleton] using hfd
  accepted fd hfd := by
    simp only [inPort, List.countP_append, List.countP_singleton, Option.some.injEq]
    have hold : fd ∈ s.accepted → 1 ≤ s.delivered.count fd + (s.posted.eraseIdx k).countP
        (fun p => p.fd = fd ∧ p.packet = some true) := by
      intro hmem
      simpa [inPort, countP_eraseIdx hp, hpacket] using h.accepted fd hmem
    cases bOk with
    | false =>
      have := hold hfd
      omega
    | true =>
      cases List.mem_append.mp hfd with
      | inl hmem =>
        have := hold hmem
        omega
      | inr hnew =>
        obtain rfl := List.mem_singleton.mp hnew
        simp only [and_self, decide_true, if_true]
        omega

/-- A packet brings its slot to `m_acceptedq` and its connection to the callback. -/
theorem Tracked.complete (h : Tracked rest s) (hp : s.posted[k]? = some p) (hpacket : p.packet = some true) :
    Tracked rest ({ s with posted := s.posted.eraseIdx k }.acceptComplete p.slot true true) := by
  have hlo := h.bound p (List.mem_of_getElem? hp)
  rw [@acceptComplete_kept { s with posted := s.posted.eraseIdx k } p.slot p.fd hlo]
  constructor
  · intro slot
    have hslot := h.slots slot
    simp only [held, countP_eraseIdx hp, decide_eq_true_eq] at hslot
    simp only [held, List.count_append, List.count_singleton, beq_iff_eq]
    omega
  · exact h.alive
  · intro q hq
    exact h.bound q (List.mem_of_mem_eraseIdx hq)
  · intro fd
    have hfd := h.fds fd
    simp only [countP_eraseIdx hp, decide_eq_true_eq] at hfd
    simp only [List.count_append, List.count_singleton, beq_iff_eq]
    omega
  · intro fd hfd
    have hone := h.accepted fd hfd
    simp only [inPort, countP_eraseIdx hp, decide_eq_true_eq, hpacket, and_true] at hone
    simp only [inPort, List.count_append, List.count_singleton, beq_iff_eq]
    omega

/-- A packet that is dropped takes its slot with it. -/
theorem Tracked.not_conserved_complete (h : Tracked [] s) (hp : s.posted[k]? = some p)
    (hdropped : ¬ (bOk = true ∧ setsockopt = true)) :
    ¬ Conserved ({ s with posted := s.posted.eraseIdx k }.acceptComplete p.slot bOk setsockopt) := by
  rw [acceptComplete_dropped hdropped]
  intro hconserved
  have hslot := h.slots p.slot
  simp only [held, countP_eraseIdx hp, decide_true, if_true, List.count_nil] at hslot
  split at hslot
  · next hlt =>
    have hone := hconserved p.slot hlt
    simp only [held] at hone
    omega
  · omega

theorem Tracked.pop {acceptedq : List ℕ} (h : Tracked [] s) (hq : s.acceptedq = slot :: acceptedq) :
    Tracked [slot] { s with acceptedq := acceptedq } := by
  refine ⟨?_, h.alive, h.bound, h.fds, h.accepted⟩
  intro k
  have hk := h.slots k
  simp only [held, hq, List.count_cons, List.count_nil] at hk ⊢
  omega

theorem Tracked.handle (h : Tracked [] s) :
    (Conserved (s.handle c) → s.acceptedq ≠ [] → c.posts = true) ∧
      ((s.acceptedq ≠ [] → c.posts = true) → Tracked [] (s.handle c)) := by
  cases hq : s.acceptedq with
  | nil =>
    have hsame : s.handle c = s := by rw [IocpListener.handle, hq]
    rw [hsame]
    exact ⟨fun _ hne => absurd rfl hne, fun _ => h⟩
  | cons slot acceptedq =>
    have hcall : s.handle c = ({ s with acceptedq := acceptedq }.asynAccept slot c).2 := by rw [IocpListener.handle, hq]
    have hpop := h.pop hq
    rw [hcall]
    cases hc : c.posts with
    | true => exact ⟨fun _ _ => rfl, fun _ => (hpop.asynAccept hc).2⟩
    | false =>
      constructor
      · intro hconserved
        have hone := hconserved slot hpop.slot_lt
        obtain ⟨-, hnone⟩ | htwo := hpop.asynAccept_of_not_posts hc
        · omega
        · omega
      · intro hposts
        cases hposts (List.cons_ne_nil slot acceptedq)

theorem keepsSlot_step (h : Tracked [] s) (hstep : s.step op = some t) :
    (Conserved t ∧ DeliveredOnce t → KeepsSlot s op) ∧ (KeepsSlot s op → Tracked [] t) := by
  cases op with
  | kernel k bOk =>
    obtain ⟨p, hp, hstep⟩ := Option.bind_eq_some_iff.mp hstep
    obtain ⟨hpacket, ht⟩ := Option.ite_none_right_eq_some.mp hstep
    obtain rfl := Option.some.inj ht
    exact ⟨fun _ => trivial, fun _ => h.kernel hp hpacket⟩
  | complete k setsockopt =>
    obtain ⟨p, hp, hstep⟩ := Option.bind_eq_some_iff.mp hstep
    obtain ⟨bOk, hpacket, rfl⟩ := Option.map_eq_some_iff.mp hstep
    constructor
    · intro hgood
      by_contra hkeeps
      refine h.not_conserved_complete hp ?_ hgood.1
      rintro ⟨rfl, rfl⟩
      apply hkeeps ⟨rfl, _⟩
      intro q hq
      obtain rfl := Option.some.inj (hp.symm.trans hq)
      exact hpacket
    · rintro ⟨rfl, hkeeps⟩
      obtain rfl := Option.some.inj (hpacket.symm.trans (hkeeps p hp))
      exact h.complete hp hpacket
  | handle c =>
    obtain ⟨-, ht⟩ := Option.ite_none_right_eq_some.mp hstep
    obtain rfl := Option.some.inj ht
    obtain ⟨hposts, htracked⟩ := h.handle (c := c)
    constructor
    · intro hgood
      exact hposts hgood.1
    · intro hkeeps
      exact (htracked hkeeps).frame _ _ _
  | cancel =>
    obtain rfl := Option.some.inj hstep
    exact ⟨fun _ => trivial, fun _ => h.frame _ _ _⟩

/-- The slots stay where they belong and the connections are delivered once, from the start on, exactly where each
posting is one that `posts` names and no completion is dropped. -/
theorem accept_slots_conserved_iff {ops : List AcceptOp} (h : exec step (new.startAsynAccept errcb calls) ops = some s) :
    Always step (fun s => Conserved s ∧ DeliveredOnce s) (new.startAsynAccept errcb calls) ops ↔
      (∀ slot < initAsynAccepting, (calls slot).posts = true) ∧
        Guarded step KeepsSlot (new.startAsynAccept errcb calls) ops := by
  by_cases hcalls : ∀ slot ∈ List.range initAsynAccepting, (calls slot).posts = true
  · have hstart : Tracked [] (new.startAsynAccept errcb calls) := tracked_new.startFrom hcalls
    rw [and_iff_right fun slot hslot => hcalls slot (List.mem_range.mpr hslot)]
    exact always_iff_guarded_of_inv (fun _ h => ⟨h.conserved, h.deliveredOnce⟩) (fun _ _ _ => keepsSlot_step) hstart h
  · constructor
    · intro halways
      exact absurd halways.good.1 (tracked_new.not_conserved_startFrom hcalls)
    · rintro ⟨hposts, -⟩
      exact absurd (fun slot hslot => hposts slot (List.mem_range.mp hslot)) hcalls

def pendingCalls : AsynAcceptCalls := ⟨true, true, true, .pending, true⟩

/-- A connection on a slot, its packet, and the slot posted again. -/
def oneConnection : List AcceptOp := [.kernel 0 true, .complete 7 true, .handle pendingCalls]

theorem accept_slots_conserved_iff_oneConnection :
    Always step (fun s => Conserved s ∧ DeliveredOnce s) (new.startAsynAccept false fun _ => pendingCalls)
        oneConnection ↔
      (∀ slot < initAsynAccepting, pendingCalls.posts = true) ∧
        Guarded step KeepsSlot (new.startAsynAccept false fun _ => pendingCalls) oneConnection :=
  @accept_slots_conserved_iff _ false (fun _ => pendingCalls) oneConnection rfl

/-- `AcceptEx` succeeds at once for the first slot. -/
def firstAtOnce (slot : ℕ) : AsynAcceptCalls := ⟨true, true, true, if slot = 0 then .done else .pending, true⟩

/-- The connection is delivered by `AsynAccept` and again with its packet. -/
theorem connection_delivered_twice : ¬ ∀ (errcb : Bool) (calls : ℕ → AsynAcceptCalls) (ops : List AcceptOp)
    (s : IocpListener), exec step (new.startAsynAccept errcb calls) ops = some s →
      Always step (fun s => Conserved s ∧ DeliveredOnce s) (new.startAsynAccept errcb calls) ops := by
  intro h
  have hgood := (h false firstAtOnce [.complete 0 true] _ rfl).of_exec rfl
  have htwice := hgood.2 0 (by decide)
  exact absurd htwice (by decide)

end IocpListener

end Chaos
