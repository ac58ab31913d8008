import Chaos.Poller

/-!
# The kernel interest of the epoll backend

`Epoll::RegistFd`, `Epoll::CancelFd` and `Epoll::SetEpollEvent` of `net/Epoll.cpp`. The kernel is a
parameter: its state, the interest that it has for a descriptor, and `epoll_ctl`. With the events that are
registered the interest stays in step; an event whose descriptor was registered for another one since can put
them out of step.
-/
namespace Chaos.Epoll

/-- The two bits of `epoll_event.events` that `SetEpollEvent` chooses; `DEFAULT_EPOLL_EVENTS` are always set. -/
structure EpollEvent where
  epollin : Bool
  epollout : Bool
  deriving DecidableEq, Repr

inductive CtlOp where
  | add (ev : EpollEvent)
  | mod (ev : EpollEvent)
  | del
  deriving DecidableEq, Repr

inductive Errno where
  | eexist
  | enoent
  deriving DecidableEq, Repr

/-- `epollCtl` answers with `none` for 0 and with `errno` for -1. -/
structure Kernel (κ : Type*) where
  interest : κ → ℕ → Option EpollEvent
  epollCtl : κ → CtlOp → ℕ → κ × Option Errno

/-- The documented behaviour of `epoll_ctl`: no failures but `EEXIST` and `ENOENT`. -/
structure Kernel.Documented {κ : Type*} (K : Kernel κ) : Prop where
  add_absent : ∀ {k fd} (ev), K.interest k fd = none → (K.epollCtl k (.add ev) fd).2 = none ∧
    K.interest (K.epollCtl k (.add ev) fd).1 = Function.update (K.interest k) fd (some ev)
  add_present : ∀ {k fd} (ev), K.interest k fd ≠ none → (K.epollCtl k (.add ev) fd).2 = some .eexist ∧
    K.interest (K.epollCtl k (.add ev) fd).1 = K.interest k
  mod_absent : ∀ {k fd} (ev), K.interest k fd = none → (K.epollCtl k (.mod ev) fd).2 = some .enoent ∧
    K.interest (K.epollCtl k (.mod ev) fd).1 = K.interest k
  mod_present : ∀ {k fd} (ev), K.interest k fd ≠ none → (K.epollCtl k (.mod ev) fd).2 = none ∧
    K.interest (K.epollCtl k (.mod ev) fd).1 = Function.update (K.interest k) fd (some ev)
  del_absent : ∀ {k fd}, K.interest k fd = none → (K.epollCtl k .del fd).2 = some .enoent ∧
    K.interest (K.epollCtl k .del fd).1 = K.interest k
  del_present : ∀ {k fd}, K.interest k fd ≠ none → (K.epollCtl k .del fd).2 = none ∧
    K.interest (K.epollCtl k .del fd).1 = Function.update (K.interest k) fd none

variable {κ : Type*} (K : Kernel κ)

def setEpollEvent (ev : EvMask) : EpollEvent := ⟨ev.meets evIoread, ev.meets evIowrite⟩

def registFd (k : κ) (care : Option EvMask) (fd : ℕ) (ev : EvMask) : κ × Bool :=
  match care with
  | none => (k, false)
  | some mask =>
    let epev := setEpollEvent (mask ||| ev)
    let r := K.epollCtl k (.add epev) fd
    match r.2 with
    | none => (r.1, true)
    | some .eexist =>
      let r' := K.epollCtl r.1 (.mod epev) fd
      (r'.1, r'.2.isNone)
    | some .enoent => (r.1, false)

def cancelFd (k : κ) (care : Option EvMask) (fd : ℕ) (ev : EvMask) : κ :=
  match care with
  | none => (K.epollCtl k .del fd).1
  | some mask =>
    let curev := mask &&& ~~~ev
    if curev.meets (evIoread ||| evIowrite) then (K.epollCtl k (.mod (setEpollEvent curev)) fd).1
    else (K.epollCtl k .del fd).1

def backend : Backend κ := ⟨registFd K, cancelFd K⟩

/-- The kernel has the two bits of the mask, which nothing at all says the same as two clear bits, and
nothing where no event is registered. -/
def Shows (k : κ) (fd : ℕ) : Option EvMask → Prop
  | none => K.interest k fd = none
  | some mask => (K.interest k fd).getD ⟨false, false⟩ = setEpollEvent mask

theorem setEpollEvent_eq_clear {ev : EvMask} :
    setEpollEvent ev = ⟨false, false⟩ ↔ ev.meets (evIoread ||| evIowrite) = false := by
  rw [meets_or_mask, Bool.or_eq_false_iff, setEpollEvent, EpollEvent.mk.injEq]

section Documented
variable {K} (hK : K.Documented) {k : κ} {fd fd' : ℕ} {mask ev : EvMask}
include hK

/-- An `ADD` with a `MOD` behind it puts the interest in any case. -/
theorem interest_registFd (k : κ) (fd : ℕ) (mask ev : EvMask) : (registFd K k (some mask) fd ev).2 = true ∧
    K.interest (registFd K k (some mask) fd ev).1 =
      Function.update (K.interest k) fd (some (setEpollEvent (mask ||| ev))) := by
  by_cases hfd : K.interest k fd = none
  · obtain ⟨hret, hint⟩ := hK.add_absent (setEpollEvent (mask ||| ev)) hfd
    simp only [registFd, hret]
    exact ⟨trivial, hint⟩
  · obtain ⟨hret, hint⟩ := hK.add_present (setEpollEvent (mask ||| ev)) hfd
    obtain ⟨hret', hint'⟩ := hK.mod_present (k := (K.epollCtl k (.add (setEpollEvent (mask ||| ev))) fd).1)
      (setEpollEvent (mask ||| ev)) (hint ▸ hfd)
    simp only [registFd, hret, hret', hint', hint]
    exact ⟨rfl, trivial⟩

theorem interest_del (k : κ) (fd : ℕ) :
    K.interest (K.epollCtl k .del fd).1 = Function.update (K.interest k) fd none := by
  by_cases hfd : K.interest k fd = none
  · rw [(hK.del_absent hfd).2, ← hfd, Function.update_eq_self]
  · exact (hK.del_present hfd).2

/-- `CancelFd` takes the descriptor out when no bit is left, else it changes the interest, which is there then. -/
theorem shows_cancelFd (hshows : Shows K k fd (some mask)) {care : EvMask} (hcurev : care &&& ~~~ev = mask &&& ~~~ev) :
    Shows K (cancelFd K k (some care) fd ev) fd (some (mask &&& ~~~ev)) := by
  simp only [cancelFd, hcurev]
  split_ifs with hbits
  · have hpresent : K.interest k fd ≠ none := by
      intro habsent
      rw [Shows, habsent, Option.getD_none, eq_comm, setEpollEvent_eq_clear] at hshows
      rw [meets_and_clear hshows] at hbits
      cases hbits
    rw [Shows, (hK.mod_present _ hpresent).2, Function.update_self]
    rfl
  · rw [Shows, interest_del hK, Function.update_self, Option.getD_none, eq_comm, setEpollEvent_eq_clear]
    exact Bool.eq_false_iff.mpr hbits

/-- The interest of another descriptor stays. -/
theorem interest_cancelFd_of_ne (care : Option EvMask) (hne : fd' ≠ fd) :
    K.interest (cancelFd K k care fd ev) fd' = K.interest k fd' := by
  have hdel : K.interest (K.epollCtl k .del fd).1 fd' = K.interest k fd' := by
    rw [interest_del hK, Function.update_of_ne hne]
  cases care with
  | none => exact hdel
  | some mask =>
    simp only [cancelFd]
    split_ifs
    · by_cases hfd : K.interest k fd = none
      · rw [(hK.mod_absent _ hfd).2]
      · rw [(hK.mod_present _ hfd).2, Function.update_of_ne hne]
    · exact hdel

omit hK in
theorem Shows.congr {k' : κ} {care : Option EvMask} (h : Shows K k fd care)
    (hint : K.interest k' fd = K.interest k fd) : Shows K k' fd care := by
  cases care with
  | none => exact hint.trans h
  | some mask =>
    rw [Shows, hint]
    exact h

theorem shows_registFd (k : κ) (fd : ℕ) (mask ev : EvMask) :
    Shows K (registFd K k (some mask) fd ev).1 fd (some (mask ||| ev)) := by
  rw [Shows, (interest_registFd hK k fd mask ev).2, Function.update_self]
  rfl

theorem interest_cancelFd_none (k : κ) (fd : ℕ) (mask : EvMask) :
    K.interest (cancelFd K k none fd mask) fd = none := by
  rw [cancelFd, interest_del hK, Function.update_self]

omit hK in
theorem Shows.watched_iff {mask' : EvMask} (h : Shows K k fd (some mask)) : Shows K k fd (some mask') ↔
    mask &&& (evIoread ||| evIowrite) = mask' &&& (evIoread ||| evIowrite) := by
  rw [Shows, show (K.interest k fd).getD ⟨false, false⟩ = setEpollEvent mask from h, setEpollEvent, setEpollEvent,
    EpollEvent.mk.injEq, and_or_eq_iff]
  have hread : evIoread = BitVec.twoPow 16 0 := by decide
  have hwrite : evIowrite = BitVec.twoPow 16 1 := by decide
  rw [hread, hwrite, and_twoPow_eq_iff _ _ (by decide), and_twoPow_eq_iff _ _ (by decide)]

theorem exact_backend : (backend K).Exact (evIoread ||| evIowrite) (Shows K) fun _ _ => True where
  regist_new {k fd m} _ := by
    have hshown := shows_registFd hK k fd m m
    rw [BitVec.or_self] at hshown
    exact ⟨(interest_registFd hK k fd m m).1, hshown⟩
  regist_more {k fd m c ev} _ hcare := by
    have hshown := shows_registFd hK k fd c ev
    rw [hcare] at hshown
    exact hshown
  cancel_some _ h hcare := shows_cancelFd hK h hcare
  cancel_all {k fd m ev} _ _ hclear := by
    have hdel : cancelFd K k (some m) fd ev = (K.epollCtl k .del fd).1 :=
      if_neg (Bool.eq_false_iff.mp hclear)
    have hgone : K.interest (cancelFd K k (some m) fd ev) fd = none := by
      rw [hdel, interest_del hK, Function.update_self]
    exact hgone
  cancel_none {k fd} m _ := interest_cancelFd_none hK k fd m
  cancel_skip _ _ hreach _ := absurd trivial hreach
  watched_iff h := h.watched_iff
  of_none {k fd m} hnone h := by
    have habsent : K.interest k fd = none := hnone
    rw [Shows, habsent, Option.getD_none, eq_comm, setEpollEvent_eq_clear] at h
    exact h
  none_of hreach _ _ := absurd trivial hreach
  regist_frame {k fd fd' x} care m hne h := by
    cases care with
    | none => exact h
    | some mask =>
      have hframe : K.interest (registFd K k (some mask) fd m).1 fd' = K.interest k fd' := by
        rw [(interest_registFd hK k fd mask m).2, Function.update_of_ne hne]
      exact h.congr hframe
  cancel_frame care m hne h := h.congr (interest_cancelFd_of_ne hK care hne)

end Documented

/-- The interest of each descriptor is that of the mask of the event registered for it, and there is none
without an event. -/
def InterestExact (s : Poller κ) : Prop :=
  ∀ fd, match s.getEvent fd with
    | none => K.interest s.backend fd = none
    | some p => (K.interest s.backend fd).getD ⟨false, false⟩ =
        ⟨(s.objs p).ev.meets evIoread, (s.objs p).ev.meets evIowrite⟩

theorem interestExact_iff (s : Poller κ) : InterestExact K s ↔ s.Shown (Shows K) := by
  refine forall_congr' fun fd => ?_
  cases hget : s.getEvent fd with
  | none =>
    rw [Poller.care_of_none hget]
    exact Iff.rfl
  | some p =>
    rw [Poller.care_of_getEvent hget]
    exact Iff.rfl

open GuardedRuns in
/-- The kernel interest is exact in every state of a run exactly where each step fits: an event that is not registered
any more changes no bit of the one that has its descriptor. -/
theorem kernel_interest_exact_iff (hK : K.Documented) (objs : ℕ → Event) {k : κ} (hk : ∀ fd, K.interest k fd = none)
    (ops : List Poller.Op) :
    Always (Poller.step (backend K)) (InterestExact K) (.start objs k) ops ↔
      Guarded (Poller.step (backend K)) (Poller.Fits (evIoread ||| evIowrite) fun _ _ => True) (.start objs k) ops :=
  Poller.always_shown_iff (exact_backend hK) (interestExact_iff K) hk ops

/-- A kernel that keeps its interest in a list. -/
def listKernel : Kernel (List (ℕ × EpollEvent)) where
  interest k fd := k.lookup fd
  epollCtl k op fd :=
    match op, (k.lookup fd).isSome with
    | .add ev, false => ((fd, ev) :: k, none)
    | .add _, true => (k, some .eexist)
    | .mod _, false | .del, false => (k, some .enoent)
    | .mod ev, true => ((fd, ev) :: KeyLists.eraseKey k fd, none)
    | .del, true => (KeyLists.eraseKey k fd, none)

theorem listKernel_documented : listKernel.Documented := by
  have hput : ∀ (k : List (ℕ × EpollEvent)) (fd : ℕ) (ev : EpollEvent),
      (fun fd' => ((fd, ev) :: k).lookup fd') = Function.update (fun fd' => k.lookup fd') fd (some ev) := by
    intro k fd ev
    funext fd'
    rcases eq_or_ne fd' fd with rfl | hne
    · rw [Function.update_self, List.lookup_cons_self]
    · rw [Function.update_of_ne hne, List.lookup_cons, beq_false_of_ne hne]
  have htake : ∀ (k : List (ℕ × EpollEvent)) (fd : ℕ),
      (fun fd' => (KeyLists.eraseKey k fd).lookup fd') = Function.update (fun fd' => k.lookup fd') fd none := by
    intro k fd
    funext fd'
    rcases eq_or_ne fd' fd with rfl | hne
    · rw [Function.update_self, KeyLists.lookup_eraseKey_self]
    · rw [Function.update_of_ne hne, KeyLists.lookup_eraseKey_of_ne k hne]
  constructor
  · intro k fd ev h
    simp only [listKernel] at h ⊢
    rw [h]
    exact ⟨rfl, hput k fd ev⟩
  · intro k fd ev h
    simp only [listKernel] at h ⊢
    simp [Option.isSome_iff_ne_none.mpr h]
  · intro k fd ev h
    simp only [listKernel] at h ⊢
    simp [h]
  · intro k fd ev h
    simp only [listKernel] at h ⊢
    simp [Option.isSome_iff_ne_none.mpr h, hput, htake]
  · intro k fd h
    simp only [listKernel] at h ⊢
    simp [h]
  · intro k fd h
    simp only [listKernel] at h ⊢
    simp [Option.isSome_iff_ne_none.mpr h, htake]

def epollObjs : ℕ → Event := fun p => ⟨none, evIoread, [], p % 1024, 0, 0, false, false⟩

/-- Disabled altogether, enabled again twice and deleted; then the event 1029 has the descriptor, and what the event 5
enables is enabled already. -/
def epollSample : List Poller.Op :=
  [.add 5, .update 5 .del evIoread, .update 5 .add evIowrite, .update 5 .add evIowrite, .del 5, .add 1029,
    .update 1029 .add evIowrite, .update 5 .add evIowrite, .update 1029 .del evIowrite, .cancel 1029, .del 1029, .add 5]

open GuardedRuns in
theorem kernel_interest_exact_iff_sample :
    Always (Poller.step (backend listKernel)) (InterestExact listKernel) (.start epollObjs []) epollSample :=
  (kernel_interest_exact_iff listKernel listKernel_documented epollObjs (fun _ => rfl) epollSample).mpr
    (by decide +kernel)

/-- A second `EV_CANCEL` deletes the event 5 with its centre set; once the event 1029 has the descriptor, `EnableEvent`
of the event 5 enables writing there. -/
def staleSample : List Poller.Op :=
  [.add 5, .cancel 5, .del 5, .add 5, .del 5, .add 1029, .update 5 .add evIowrite]

def staleEnd : Poller (List (ℕ × EpollEvent)) :=
  (GuardedRuns.exec (Poller.step (backend listKernel)) (.start epollObjs []) staleSample).get (by decide +kernel)

theorem not_kernel_interest_exact :
    ¬ ∀ (objs : ℕ → Event) (ops : List Poller.Op) (s : Poller (List (ℕ × EpollEvent))),
      GuardedRuns.exec (Poller.step (backend listKernel)) (.start objs []) ops = some s → InterestExact listKernel s := by
  intro h
  have hexact := h epollObjs staleSample staleEnd (Option.some_get _).symm 5
  have hget : staleEnd.getEvent 5 = some 1029 := by decide +kernel
  have hmask : (staleEnd.objs 1029).ev.meets evIowrite = false := by decide +kernel
  have hout : ((listKernel.interest staleEnd.backend 5).getD ⟨false, false⟩).epollout = true := by decide +kernel
  rw [hget] at hexact
  rw [show (listKernel.interest staleEnd.backend 5).getD ⟨false, false⟩ = _ from hexact, hmask] at hout
  cases hout

end Chaos.Epoll
