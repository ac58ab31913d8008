import Chaos.EventCentre

/-!
# The poller and its backend

`Poller` of `net/Poller.cpp` with the descriptors' side of `net/Event.cpp`: which event is registered for
a descriptor, and what `RegistFd` and `CancelFd` of the backend are told about it. Both go by the descriptor
and not by the event, so an event that is no longer registered can change what is told about the one that is
registered in its place. For an `Exact` backend a step keeps what is shown for the descriptors in step with
the masks of their events exactly where it `Fits`.
-/
namespace Chaos

open KeyLists

/-- The virtual functions of a backend. The second argument is the mask of `GetEvent(fd)`; `RegistFd` answers
`true` for 0. -/
structure Backend (β : Type*) where
  registFd : β → Option EvMask → ℕ → EvMask → β × Bool
  cancelFd : β → Option EvMask → ℕ → EvMask → β

/-- What `UpdateFd` tells the backend. -/
def Backend.update {β : Type*} (B : Backend β) (b : β) (care : Option EvMask) (fd : ℕ) :
    EventUpdateOp → EvMask → β
  | .add, ev => (B.registFd b care fd ev).1
  | .del, ev => B.cancelFd b care fd ev

/-- `objs` are the event objects of the process, `events` is `m_events`. -/
structure Poller (β : Type*) where
  objs : ℕ → Event
  events : List (ℕ × ℕ)
  backend : β

namespace Poller

variable {β : Type*} (B : Backend β) (s : Poller β)

/-- `GetEvent`. -/
def getEvent (fd : ℕ) : Option ℕ := s.events.lookup fd

/-- The mask of the event that is registered for the descriptor. -/
def care (fd : ℕ) : Option EvMask := (s.getEvent fd).map fun p => (s.objs p).ev

def setCentre (p : ℕ) (centre : Option ℕ) : Poller β :=
  { s with objs := Function.update s.objs p { s.objs p with centre := centre } }

def addEvent (p : ℕ) : Poller β × Bool :=
  let e := s.objs p
  if (s.getEvent e.evKey).isSome then (s, false)
  else
    let t := { s with events := (e.evKey, p) :: s.events }
    let r := B.registFd t.backend (t.care e.evKey) e.evKey e.ev
    if r.2 then ({ t with backend := r.1 }, true)
    else ({ t with events := eraseKey t.events e.evKey, backend := r.1 }, false)

/-- `AddEvent` as `RegisterEvent` calls it: the event gets its centre when it was added. -/
def register (p : ℕ) : Poller β :=
  let r := s.addEvent B p
  if r.2 then r.1.setCentre p (some 0) else r.1

def delEvent (p : ℕ) : Poller β :=
  let e := s.objs p
  let b := B.cancelFd s.backend (s.care e.evKey) e.evKey e.ev
  { s with events := eraseKey s.events e.evKey, backend := b }

def updateFd (fd : ℕ) (op : EventUpdateOp) (ev : EvMask) : Poller β :=
  if (s.getEvent fd).isNone then s else { s with backend := B.update s.backend (s.care fd) fd op ev }

/-- `Event::UpdateEvent`; the mask of the event changes before the backend hears of it. -/
def updateEvent (p : ℕ) (op : EventUpdateOp) (ev : EvMask) : Poller β :=
  if (s.objs p).centre.isNone then s
  else
    let t := { s with objs := Function.update s.objs p ((s.objs p).updateEvent op ev) }
    t.updateFd B (s.objs p).evKey op ev

/-- `update` is `EnableEvent` or `DisableEvent` of a `Connecter`. -/
inductive Op where
  | add (p : ℕ)
  | cancel (p : ℕ)
  | update (p : ℕ) (op : EventUpdateOp) (ev : EvMask)
  | del (p : ℕ)
  deriving DecidableEq, Repr

def step (s : Poller β) : Op → Option (Poller β)
  | .add p => some (s.register B p)
  | .cancel p => some (s.setCentre p none)
  | .update p op ev => some (s.updateEvent B p op (ioValid ev))
  | .del p => some (s.delEvent B p)

/-- A poller without events. -/
def start (objs : ℕ → Event) (b : β) : Poller β := ⟨objs, [], b⟩

/-! ## Exact backends -/

end Poller

/-- What a backend shows for a descriptor follows the `watched` bits of the mask of its event, none where no event
is registered; `CancelFd` does something for the descriptors that it reaches. The mask `c` of `GetEvent(fd)` may
have the bits that are told already. -/
structure Backend.Exact {β : Type*} (B : Backend β) (watched : EvMask) (shows : β → ℕ → Option EvMask → Prop)
    (reach : β → ℕ → Prop) : Prop where
  regist_new : ∀ {b fd m}, shows b fd none →
    (B.registFd b (some m) fd m).2 = true ∧ shows (B.registFd b (some m) fd m).1 fd (some m)
  regist_more : ∀ {b fd m c ev}, shows b fd (some m) → c ||| ev = m ||| ev →
    shows (B.registFd b (some c) fd ev).1 fd (some (m ||| ev))
  cancel_some : ∀ {b fd m c ev}, reach b fd → shows b fd (some m) → c &&& ~~~ev = m &&& ~~~ev →
    shows (B.cancelFd b (some c) fd ev) fd (some (m &&& ~~~ev))
  cancel_all : ∀ {b fd m ev}, reach b fd → shows b fd (some m) → (m &&& ~~~ev).meets watched = false →
    shows (B.cancelFd b (some m) fd ev) fd none
  cancel_none : ∀ {b fd} (m), shows b fd none → shows (B.cancelFd b none fd m) fd none
  cancel_skip : ∀ {b fd x} (c m), ¬ reach b fd → shows b fd x → shows (B.cancelFd b c fd m) fd x
  watched_iff : ∀ {b fd m m'}, shows b fd (some m) → (shows b fd (some m') ↔ m &&& watched = m' &&& watched)
  of_none : ∀ {b fd m}, shows b fd none → shows b fd (some m) → m.meets watched = false
  none_of : ∀ {b fd m}, ¬ reach b fd → shows b fd (some m) → m.meets watched = false → shows b fd none
  regist_frame : ∀ {b fd fd' x} (c m), fd' ≠ fd → shows b fd' x → shows (B.registFd b c fd m).1 fd' x
  cancel_frame : ∀ {b fd fd' x} (c m), fd' ≠ fd → shows b fd' x → shows (B.cancelFd b c fd m) fd' x

/-- An update tells the backend what the mask `m` of the registered event becomes: through that event itself, or
where it makes no difference to the watched bits. -/
def Backend.UpdateFits (watched m ev : EvMask) (own reach : Prop) : EventUpdateOp → Prop
  | .add => own ∨ (ev &&& ~~~m).meets watched = false
  | .del => (own ↔ reach) ∨ (m &&& ev).meets watched = false

/-- A deletion with the mask `ev` clears all watched bits of the mask `m` of the event that it takes out. -/
def Backend.DeleteFits (watched m ev : EvMask) (reach : Prop) : Prop :=
  (m &&& ~~~ev).meets watched = false ∧ (reach ∨ (m &&& ev).meets watched = false)

section Exact
variable {β : Type*} {B : Backend β} {watched : EvMask} {shows : β → ℕ → Option EvMask → Prop}
  {reach : β → ℕ → Prop} (hB : B.Exact watched shows reach) {b : β} {fd : ℕ} {m m' ev : EvMask}
include hB

theorem Backend.Exact.update_iff {own : Prop} (op : EventUpdateOp) (hm : shows b fd (some m))
    (hown : own → m' = op.apply m ev) (hother : ¬ own → m' = m) :
    shows (B.update b (some m') fd op ev) fd (some m') ↔ UpdateFits watched m ev own (reach b fd) op := by
  cases op with
  | add =>
    have hcare : m' ||| ev = m ||| ev := by
      by_cases h : own
      · rw [hown h, EventUpdateOp.apply, BitVec.or_assoc, BitVec.or_self]
      · rw [hother h]
    rw [Backend.update, hB.watched_iff (hB.regist_more hm hcare), UpdateFits]
    by_cases h : own
    · rw [hown h, EventUpdateOp.apply]
      exact iff_of_true rfl (Or.inl h)
    · rw [hother h, or_same_iff, or_iff_right h]
  | del =>
    have hcare : m' &&& ~~~ev = m &&& ~~~ev := by
      by_cases h : own
      · rw [hown h, EventUpdateOp.apply, BitVec.and_assoc, BitVec.and_self]
      · rw [hother h]
    rw [Backend.update, UpdateFits]
    by_cases hreach : reach b fd
    · rw [hB.watched_iff (hB.cancel_some hreach hm hcare), iff_true_right hreach]
      by_cases h : own
      · rw [hown h, EventUpdateOp.apply]
        exact iff_of_true rfl (Or.inl h)
      · rw [hother h, clear_same_iff, or_iff_right h]
    · rw [hB.watched_iff (hB.cancel_skip _ _ hreach hm), iff_false_right hreach]
      by_cases h : own
      · rw [hown h, EventUpdateOp.apply, eq_comm, clear_same_iff, or_iff_right (not_not_intro h)]
      · rw [hother h]
        exact iff_of_true rfl (Or.inl h)

theorem Backend.Exact.delete_iff (hm : shows b fd (some m)) :
    shows (B.cancelFd b (some m) fd ev) fd none ↔ DeleteFits watched m ev (reach b fd) := by
  rw [DeleteFits]
  by_cases hreach : reach b fd
  · rw [and_iff_left (Or.inl hreach)]
    exact ⟨fun hnone => hB.of_none hnone (hB.cancel_some hreach hm rfl), hB.cancel_all hreach hm⟩
  · have hskip := hB.cancel_skip (some m) ev hreach hm
    rw [or_iff_right hreach, ← Bool.or_eq_false_iff, ← meets_eq_or]
    exact ⟨fun hnone => hB.of_none hnone hskip, fun hclear => hB.cancel_skip _ _ hreach (hB.none_of hreach hm hclear)⟩

end Exact

namespace Poller

variable {β : Type*} {B : Backend β} {watched : EvMask} {shows : β → ℕ → Option EvMask → Prop}
  {reach : β → ℕ → Prop} {s t : Poller β} {p fd : ℕ}

/-- Where an event is registered for the descriptor of an update or a deletion, the step fits the mask of that event,
which may be another one. -/
def Fits (watched : EvMask) (reach : β → ℕ → Prop) (s : Poller β) : Op → Prop
  | .update p op ev => (s.objs p).centre = none ∨ ∀ q ∈ s.getEvent (s.objs p).evKey,
      Backend.UpdateFits watched (s.objs q).ev (ioValid ev) (q = p) (reach s.backend (s.objs p).evKey) op
  | .del p => ∀ q ∈ s.getEvent (s.objs p).evKey,
      Backend.DeleteFits watched (s.objs q).ev (s.objs p).ev (reach s.backend (s.objs p).evKey)
  | .add _ | .cancel _ => True

instance (watched m ev : EvMask) (own reach : Prop) [Decidable own] [Decidable reach] :
    (op : EventUpdateOp) → Decidable (Backend.UpdateFits watched m ev own reach op)
  | .add => inferInstanceAs (Decidable (own ∨ _ = false))
  | .del => inferInstanceAs (Decidable ((own ↔ reach) ∨ _ = false))

instance (watched m ev : EvMask) (reach : Prop) [Decidable reach] :
    Decidable (Backend.DeleteFits watched m ev reach) :=
  inferInstanceAs (Decidable (_ = false ∧ (reach ∨ _ = false)))

instance [∀ b fd, Decidable (reach b fd)] (s : Poller β) : (op : Op) → Decidable (Fits watched reach s op)
  | .update p op ev => inferInstanceAs (Decidable (_ ∨ ∀ q ∈ s.getEvent (s.objs p).evKey,
      Backend.UpdateFits watched (s.objs q).ev (ioValid ev) (q = p) (reach s.backend (s.objs p).evKey) op))
  | .del p => inferInstanceAs (Decidable (∀ q ∈ s.getEvent (s.objs p).evKey,
      Backend.DeleteFits watched (s.objs q).ev (s.objs p).ev (reach s.backend (s.objs p).evKey)))
  | .add _ | .cancel _ => isTrue trivial

/-- The registered events lie under their descriptors. -/
def Keyed (s : Poller β) : Prop := ∀ fd p, s.getEvent fd = some p → (s.objs p).evKey = fd

/-- The backend shows the masks of the registered events. -/
def Shown (shows : β → ℕ → Option EvMask → Prop) (s : Poller β) : Prop := ∀ fd, shows s.backend fd (s.care fd)

structure InStep (shows : β → ℕ → Option EvMask → Prop) (s : Poller β) : Prop where
  key : s.Keyed
  shown : s.Shown shows

theorem care_of_getEvent (h : s.getEvent fd = some p) : s.care fd = some (s.objs p).ev := by
  rw [care, h]
  rfl

theorem care_of_none (h : s.getEvent fd = none) : s.care fd = none := by
  rw [care, h]
  rfl

/-- A step about one descriptor leaves the others shown. -/
theorem shown_iff_at {k : ℕ} (hothers : ∀ fd, fd ≠ k → shows s.backend fd (s.care fd)) :
    s.Shown shows ↔ shows s.backend k (s.care k) := by
  refine ⟨fun h => h k, fun h fd => ?_⟩
  rcases eq_or_ne fd k with rfl | hne
  · exact h
  · exact hothers fd hne

section UpdateFd
variable (op : EventUpdateOp) (ev : EvMask)

theorem updateFd_getEvent (k : ℕ) : (s.updateFd B k op ev).getEvent fd = s.getEvent fd := by
  rw [updateFd]
  split_ifs <;> rfl

theorem updateFd_objs (k : ℕ) : (s.updateFd B k op ev).objs = s.objs := by
  rw [updateFd]
  split_ifs <;> rfl

theorem updateFd_care (k : ℕ) : (s.updateFd B k op ev).care fd = s.care fd := by
  rw [care, care, updateFd_getEvent, updateFd_objs]

theorem updateFd_of_getEvent {k : ℕ} {c : EvMask} (h : s.care k = some c) :
    (s.updateFd B k op ev).backend = B.update s.backend (some c) k op ev := by
  have hget : ¬ (s.getEvent k).isNone := by
    intro hnone
    rw [care_of_none (Option.isNone_iff_eq_none.mp hnone)] at h
    cases h
  rw [updateFd, if_neg hget, h]

end UpdateFd

/-- A change of one event object is seen at its descriptor only. -/
theorem care_update_of_ne (hs : s.Keyed) (e : Event) (hfd : fd ≠ (s.objs p).evKey) :
    care { s with objs := Function.update s.objs p e } fd = s.care fd := by
  simp only [care, getEvent]
  cases h : s.events.lookup fd with
  | none => rfl
  | some q =>
    have hq : q ≠ p := by
      rintro rfl
      exact hfd (hs fd q h).symm
    simp only [Option.map_some, Function.update_of_ne hq]

/-- A change that leaves the descriptor of an event object alone. -/
theorem Keyed.update (hs : s.Keyed) {e : Event} (he : e.evKey = (s.objs p).evKey) :
    Keyed { s with objs := Function.update s.objs p e } := by
  intro fd q hq
  rw [← hs fd q hq]
  rcases eq_or_ne q p with rfl | hne
  · simp only [Function.update_self, he]
  · simp only [Function.update_of_ne hne]

theorem inStep_setCentre (hs : InStep shows s) (p : ℕ) (centre : Option ℕ) :
    InStep shows (s.setCentre p centre) := by
  have hcare : ∀ fd, (s.setCentre p centre).care fd = s.care fd := by
    intro fd
    simp only [care, getEvent, setCentre]
    congr 1
    funext q
    rcases eq_or_ne q p with rfl | hq
    · rw [Function.update_self]
    · rw [Function.update_of_ne hq]
  refine ⟨hs.key.update rfl, fun fd => ?_⟩
  rw [hcare]
  exact hs.shown fd

section Exact
variable (hB : B.Exact watched shows reach)
include hB

theorem inStep_register (hs : InStep shows s) (p : ℕ) : InStep shows (s.register B p) := by
  cases hget : s.getEvent (s.objs p).evKey with
  | some q => simpa [register, addEvent, hget] using hs
  | none =>
    let t : Poller β := { s with
      events := ((s.objs p).evKey, p) :: s.events
      backend := (B.registFd s.backend (some (s.objs p).ev) (s.objs p).evKey (s.objs p).ev).1 }
    have hself : t.getEvent (s.objs p).evKey = some p := List.lookup_cons_self
    have hother : ∀ fd, fd ≠ (s.objs p).evKey → t.getEvent fd = s.getEvent fd := by
      intro fd hne
      rw [getEvent, List.lookup_cons, beq_false_of_ne hne]
      rfl
    have hfree := hs.shown (s.objs p).evKey
    rw [care_of_none hget] at hfree
    have ht : InStep shows t := by
      constructor
      · intro fd q hq
        rcases eq_or_ne fd (s.objs p).evKey with rfl | hne
        · rw [← Option.some.inj (hself.symm.trans hq)]
        · exact hs.key fd q ((hother fd hne).symm.trans hq)
      · intro fd
        rcases eq_or_ne fd (s.objs p).evKey with rfl | hne
        · rw [care_of_getEvent hself]
          exact (hB.regist_new hfree).2
        · have hcare : t.care fd = s.care fd := by rw [care, care, hother fd hne]
          rw [hcare]
          exact hB.regist_frame _ _ hne (hs.shown fd)
    have hcare : care { s with events := t.events } (s.objs p).evKey = some (s.objs p).ev :=
      care_of_getEvent List.lookup_cons_self
    have hreg : s.register B p = t.setCentre p (some 0) := by
      simp [register, addEvent, hget, t, hcare, (hB.regist_new hfree).1]
    rw [hreg]
    exact inStep_setCentre ht p (some 0)

omit hB in
theorem Keyed.delEvent (hs : s.Keyed) (p : ℕ) : (s.delEvent B p).Keyed := by
  intro fd q hq
  rcases eq_or_ne fd (s.objs p).evKey with rfl | hne
  · rw [getEvent, Poller.delEvent, lookup_eraseKey_self] at hq
    cases hq
  · rw [getEvent, Poller.delEvent, lookup_eraseKey_of_ne _ hne] at hq
    exact hs fd q hq

theorem shown_delEvent_iff (hs : InStep shows s) (p : ℕ) :
    (s.delEvent B p).Shown shows ↔ Fits watched reach s (.del p) := by
  have hgone : (s.delEvent B p).care (s.objs p).evKey = none := care_of_none (lookup_eraseKey_self ..)
  have hothers : ∀ fd, fd ≠ (s.objs p).evKey →
      shows (s.delEvent B p).backend fd ((s.delEvent B p).care fd) := by
    intro fd hne
    have hcare : (s.delEvent B p).care fd = s.care fd := by
      simp only [care, getEvent, Poller.delEvent, lookup_eraseKey_of_ne _ hne]
    rw [hcare]
    exact hB.cancel_frame _ _ hne (hs.shown fd)
  have hshown := hs.shown (s.objs p).evKey
  rw [shown_iff_at hothers, hgone, Fits]
  cases hget : s.getEvent (s.objs p).evKey with
  | none =>
    rw [care_of_none hget] at hshown
    rw [Poller.delEvent, care_of_none hget]
    exact iff_of_true (hB.cancel_none _ hshown) fun q hq => nomatch hq
  | some q =>
    rw [care_of_getEvent hget] at hshown
    rw [Poller.delEvent, care_of_getEvent hget]
    simp only [Option.mem_def, Option.some.injEq, forall_eq']
    exact hB.delete_iff hshown

theorem shows_updateFd_of_ne {op : EventUpdateOp} {ev : EvMask} {k : ℕ} {x : Option EvMask} (hne : fd ≠ k)
    (hx : shows s.backend fd x) : shows (s.updateFd B k op ev).backend fd x := by
  rw [updateFd]
  split_ifs
  · exact hx
  · cases op with
    | add => exact hB.regist_frame _ _ hne hx
    | del => exact hB.cancel_frame _ _ hne hx

/-- The event object of an update that its centre lets through, and what the poller is told. -/
theorem shown_updateFd_iff (hs : InStep shows s) (op : EventUpdateOp) (ev : EvMask) {e : Event}
    (hmask : e.ev = op.apply (s.objs p).ev ev) :
    let t : Poller β := { s with objs := Function.update s.objs p e }
    (t.updateFd B (s.objs p).evKey op ev).Shown shows ↔ ∀ q ∈ s.getEvent (s.objs p).evKey,
      Backend.UpdateFits watched (s.objs q).ev ev (q = p) (reach s.backend (s.objs p).evKey) op := by
  intro t
  have hothers : ∀ fd, fd ≠ (s.objs p).evKey →
      shows (t.updateFd B (s.objs p).evKey op ev).backend fd ((t.updateFd B (s.objs p).evKey op ev).care fd) := by
    intro fd hne
    rw [updateFd_care, care_update_of_ne hs.key _ hne]
    exact shows_updateFd_of_ne hB hne (hs.shown fd)
  have hshown := hs.shown (s.objs p).evKey
  rw [shown_iff_at hothers, updateFd_care]
  cases hget : s.getEvent (s.objs p).evKey with
  | none =>
    have hskip : t.updateFd B (s.objs p).evKey op ev = t := if_pos (Option.isNone_iff_eq_none.mpr hget)
    have hcare : t.care (s.objs p).evKey = none := care_of_none hget
    rw [care_of_none hget] at hshown
    rw [hskip, hcare]
    exact iff_of_true hshown fun q hq => nomatch hq
  | some q =>
    have hcare : t.care (s.objs p).evKey = some (t.objs q).ev := care_of_getEvent hget
    rw [care_of_getEvent hget] at hshown
    rw [updateFd_of_getEvent op ev hcare, hcare]
    simp only [Option.mem_def, Option.some.injEq, forall_eq']
    apply hB.update_iff op hshown
    · rintro rfl
      rw [show t.objs q = e from Function.update_self .., hmask]
    · intro hne
      rw [show t.objs q = s.objs q from Function.update_of_ne hne ..]

theorem shown_updateEvent_iff (hs : InStep shows s) (p : ℕ) (op : EventUpdateOp) (ev : EvMask) :
    (s.updateEvent B p op (ioValid ev)).Shown shows ↔ Fits watched reach s (.update p op ev) := by
  cases hcentre : (s.objs p).centre with
  | none =>
    have hskip : s.updateEvent B p op (ioValid ev) = s := if_pos (by rw [hcentre]; rfl)
    rw [hskip]
    exact iff_of_true hs.shown (Or.inl hcentre)
  | some c =>
    have hcalled : ¬ (s.objs p).centre.isNone := by
      rw [hcentre]
      exact Bool.false_ne_true
    have hmask : ((s.objs p).updateEvent op (ioValid ev)).ev = op.apply (s.objs p).ev (ioValid ev) := by
      rw [Event.updateEvent, if_pos (by rw [hcentre]; rfl)]
    rw [Poller.updateEvent, if_neg hcalled, Fits, or_iff_right (by simp [hcentre])]
    exact shown_updateFd_iff hB hs op (ioValid ev) hmask

omit hB in
theorem Keyed.updateEvent (hs : s.Keyed) (p : ℕ) (op : EventUpdateOp) (ev : EvMask) :
    (s.updateEvent B p op ev).Keyed := by
  have hkey : ((s.objs p).updateEvent op ev).evKey = (s.objs p).evKey := by
    rw [Event.updateEvent]
    split_ifs <;> rfl
  rw [Poller.updateEvent]
  split_ifs
  · exact hs
  · intro fd q hq
    rw [updateFd_getEvent] at hq
    rw [updateFd_objs]
    exact hs.update hkey fd q hq

/-- A step out of a state that is in step leads to one exactly where it fits. -/
theorem inStep_step (op : Op) (hs : InStep shows s) (hstep : step B s op = some t) :
    t.Keyed ∧ (t.Shown shows ↔ Fits watched reach s op) := by
  cases op with
  | add p =>
    rw [← Option.some.inj hstep]
    have ht := inStep_register hB hs p
    exact ⟨ht.key, iff_of_true ht.shown trivial⟩
  | cancel p =>
    rw [← Option.some.inj hstep]
    have ht := inStep_setCentre hs p none
    exact ⟨ht.key, iff_of_true ht.shown trivial⟩
  | update p op ev =>
    rw [← Option.some.inj hstep]
    exact ⟨hs.key.updateEvent p op _, shown_updateEvent_iff hB hs p op ev⟩
  | del p =>
    rw [← Option.some.inj hstep]
    exact ⟨hs.key.delEvent p, shown_delEvent_iff hB hs p⟩

end Exact

theorem inStep_start (objs : ℕ → Event) {b : β} (hb : ∀ fd, shows b fd none) : InStep shows (start objs b) := by
  constructor
  · intro fd q hq
    cases hq
  · intro fd
    exact hb fd

open GuardedRuns in
theorem inStep_of_guarded (hB : B.Exact watched shows reach) {objs : ℕ → Event} {b : β} (hb : ∀ fd, shows b fd none)
    {ops : List Op} (hrun : exec (step B) (start objs b) ops = some s)
    (hok : Guarded (step B) (Fits watched reach) (start objs b) ops) : InStep shows s := by
  refine invariant_of_guarded (fun s op t hs hfits hstep => ?_) (inStep_start objs hb) hok hrun
  obtain ⟨hkey, hiff⟩ := inStep_step hB op hs hstep
  exact ⟨hkey, hiff.mpr hfits⟩

open GuardedRuns in
/-- What says the same as `Shown` holds in every state of a run exactly where its steps fit. -/
theorem always_shown_iff (hB : B.Exact watched shows reach) {good : Poller β → Prop}
    (hgood : ∀ s, good s ↔ s.Shown shows) {objs : ℕ → Event} {b : β} (hb : ∀ fd, shows b fd none) (ops : List Op) :
    Always (step B) good (start objs b) ops ↔ Guarded (step B) (Fits watched reach) (start objs b) ops := by
  have htotal : ∀ (s : Poller β) (op : Op), True → True → ∃ t, step B s op = some t ∧ True := by
    intro s op _ _
    cases op <;> exact ⟨_, rfl, trivial⟩
  obtain ⟨u, hu, -⟩ := exec_of_guarded htotal trivial (guarded_of_forall (fun _ _ => trivial) (start objs b) ops)
  have hshown : ∀ s, InStep shows s → good s := fun s hs => (hgood s).mpr hs.shown
  refine always_iff_guarded_of_inv hshown ?_ (inStep_start objs hb) hu
  intro s op t hs hstep
  obtain ⟨hkey, hiff⟩ := inStep_step hB op hs hstep
  exact ⟨fun ht => hiff.mp ((hgood t).mp ht), fun hfits => ⟨hkey, hiff.mpr hfits⟩⟩

end Poller

end Chaos
