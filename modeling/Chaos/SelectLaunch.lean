import Chaos.Connecter
import Chaos.Select

/-!
# What select hands to the loop

`Select::Launch` and `CollectEvent` of `net/Select.cpp`, as built without `_WIN32`, with `Poller::PushActiveEvent`.
After an interrupted `select` `Launch` goes on with the sets as it passed them in, which a failed call leaves alone.
-/
namespace Chaos.Select

open KeyLists GuardedRuns

/-- The sets of `out` are those that the call leaves. -/
inductive SelectAnswer where
  | failed (errno : ℕ)
  | timedOut
  | ready (out : Select)

/-- The poller, and `activeEvents`. -/
structure Launching where
  poller : Poller Select
  active : List ℕ

/-- Of the centre 0. -/
def pushActiveEvent (l : Launching) (fd : ℕ) (ev : EvMask) : Launching :=
  match l.poller.getEvent fd with
  | none => l
  | some p =>
    if (l.poller.objs p).centre = some 0 ∧ (l.poller.objs p).ev.meets ev then
      { poller := { l.poller with objs := Function.update l.poller.objs p ((l.poller.objs p).pushCurEv ev) }
        active := l.active ++ [p] }
    else l

def bits (b : Select) (fd : ℕ) : EvMask :=
  (if b.rfds fd then evIoread else 0#16) ||| (if b.wfds fd then evIowrite else 0#16) |||
    (if b.efds fd then evIoexcept else 0#16)

/-- One pass of the loop over `m_events`. -/
def collectOne (out : Select) (l : Launching) (entry : ℕ × ℕ) : Launching :=
  if bits out entry.1 = 0#16 then l else pushActiveEvent l entry.1 (bits out entry.1)

def collectEvent (l : Launching) (out : Select) : Launching := l.poller.events.foldl (collectOne out) l

/-- `Launch` with the value that it returns. -/
def launch (l : Launching) : SelectAnswer → ℤ × Launching
  | .failed errno => if errno = eintr then (0, collectEvent l l.poller.backend) else (-1, l)
  | .timedOut => (0, l)
  | .ready out => (0, collectEvent l out)

/-- What `Launch` takes a descriptor to be ready for. -/
def reported (b : Select) : SelectAnswer → ℕ → EvMask
  | .failed errno, fd => if errno = eintr then bits b fd else 0#16
  | .timedOut, _ => 0#16
  | .ready out, fd => bits out fd

/-- The sets of `out` are among those of `b`. -/
def Below (out b : Select) : Prop :=
  ∀ fd, (out.rfds fd → b.rfds fd) ∧ (out.wfds fd → b.wfds fd) ∧ (out.efds fd → b.efds fd)

/-- `select` only takes descriptors out of the sets. -/
def Within (b : Select) : SelectAnswer → Prop
  | .failed _ => True
  | .timedOut => True
  | .ready out => Below out b

/-! ## The loop over the events -/

section Collect
variable (out : Select) {l : Launching} {es : List (ℕ × ℕ)} {fd p : ℕ}

/-- The event is pushed for its descriptor. -/
def Pushes (l : Launching) (fd p : ℕ) : Prop :=
  bits out fd ≠ 0#16 ∧ (l.poller.objs p).centre = some 0 ∧ (l.poller.objs p).ev.meets (bits out fd)

instance : Decidable (Pushes out l fd p) := inferInstanceAs (Decidable (_ ∧ _ ∧ _))

theorem collectOne_eq (hget : l.poller.getEvent fd = some p) :
    collectOne out l (fd, p) = if Pushes out l fd p then
      { poller := { l.poller with
          objs := Function.update l.poller.objs p ((l.poller.objs p).pushCurEv (bits out fd)) }
        active := l.active ++ [p] }
    else l := by
  by_cases hbits : bits out fd = 0#16
  · rw [collectOne, if_pos hbits, if_neg fun hpushes => hpushes.1 hbits]
  · rw [collectOne, if_neg hbits, pushActiveEvent, hget]
    exact if_congr (and_iff_right hbits).symm rfl rfl

theorem collectOne_getEvent (entry : ℕ × ℕ) (k : ℕ) :
    (collectOne out l entry).poller.getEvent k = l.poller.getEvent k := by
  rw [collectOne]
  split_ifs
  · rfl
  · rw [pushActiveEvent]
    split
    · rfl
    · split_ifs <;> rfl

/-- The entry of another event. -/
theorem collectOne_of_ne {q : ℕ} (hget : l.poller.getEvent fd = some q) (hne : p ≠ q) :
    (collectOne out l (fd, q)).poller.objs p = l.poller.objs p ∧
      (collectOne out l (fd, q)).active.count p = l.active.count p := by
  rw [collectOne_eq out hget]
  split_ifs
  · refine ⟨Function.update_of_ne hne _ _, ?_⟩
    rw [List.count_append, List.count_singleton, if_neg]
    · rfl
    · simpa using hne.symm
  · exact ⟨rfl, rfl⟩

theorem collect_of_not_mem (hget : ∀ entry ∈ es, l.poller.getEvent entry.1 = some entry.2)
    (hp : p ∉ es.map Prod.snd) :
    (es.foldl (collectOne out) l).poller.objs p = l.poller.objs p ∧
      (es.foldl (collectOne out) l).active.count p = l.active.count p := by
  induction es generalizing l with
  | nil => exact ⟨rfl, rfl⟩
  | cons entry es ih =>
    rw [List.map_cons, List.mem_cons, not_or] at hp
    obtain ⟨hne, hp⟩ := hp
    obtain ⟨hobjs, hcount⟩ := collectOne_of_ne out (hget entry (List.mem_cons_self ..)) hne
    have hrest := ih (l := collectOne out l entry) (fun e he => by
      rw [collectOne_getEvent]
      exact hget e (List.mem_cons_of_mem _ he)) hp
    exact ⟨hrest.1.trans hobjs, hrest.2.trans hcount⟩

/-- The loop meets an event once, and finds it as it was before. -/
theorem collect_of_mem (hget : ∀ entry ∈ es, l.poller.getEvent entry.1 = some entry.2)
    (hnodup : (es.map Prod.snd).Nodup) (hmem : (fd, p) ∈ es) :
    (es.foldl (collectOne out) l).poller.objs p =
        (if Pushes out l fd p then (l.poller.objs p).pushCurEv (bits out fd) else l.poller.objs p) ∧
      (es.foldl (collectOne out) l).active.count p = l.active.count p + if Pushes out l fd p then 1 else 0 := by
  induction es generalizing l with
  | nil => cases hmem
  | cons entry es ih =>
    obtain ⟨hnew, hnodup⟩ := List.nodup_cons.mp (List.map_cons ▸ hnodup)
    have hrest (e : ℕ × ℕ) (he : e ∈ es) : (collectOne out l entry).poller.getEvent e.1 = some e.2 := by
      rw [collectOne_getEvent]
      exact hget e (List.mem_cons_of_mem _ he)
    cases List.mem_cons.mp hmem with
    | inl hhead =>
      subst hhead
      obtain ⟨hobjs, hcount⟩ := collect_of_not_mem out hrest hnew
      rw [List.foldl_cons, hobjs, hcount, collectOne_eq out (hget _ (List.mem_cons_self ..))]
      split_ifs
      · refine ⟨Function.update_self .., ?_⟩
        rw [List.count_append, List.count_singleton_self]
      · exact ⟨rfl, rfl⟩
    | inr htail =>
      have hne : p ≠ entry.2 := by
        rintro rfl
        exact hnew (List.mem_map.mpr ⟨_, htail, rfl⟩)
      obtain ⟨hobjs, hcount⟩ := collectOne_of_ne out (hget entry (List.mem_cons_self ..)) hne
      obtain ⟨hobjs', hcount'⟩ := ih hrest hnodup htail
      have hsame : Pushes out (collectOne out l entry) fd p ↔ Pushes out l fd p := by
        simp only [Pushes, hobjs]
      simp only [List.foldl_cons, hobjs', hcount', hsame, hobjs, hcount]
      exact ⟨trivial, trivial⟩

end Collect

/-! ## The sets and the masks -/

section Bits
variable {b : Select} {fd : ℕ}

theorem meets_bits (m : EvMask) : m.meets (bits b fd) =
    ((b.rfds fd && m.meets evIoread) || (b.wfds fd && m.meets evIowrite) || (b.efds fd && m.meets evIoexcept)) := by
  have hzero : m.meets 0#16 = false := by
    rw [EvMask.meets, BitVec.and_zero, bne_self_eq_false]
  rw [bits, meets_or_mask, meets_or_mask, apply_ite m.meets, apply_ite m.meets, apply_ite m.meets, hzero]
  cases b.rfds fd <;> cases b.wfds fd <;> cases b.efds fd <;> simp

theorem bits_meets (b : Select) (fd : ℕ) :
    (bits b fd).meets evIoread = b.rfds fd ∧ (bits b fd).meets evIowrite = b.wfds fd ∧
      (bits b fd).meets evIoexcept = b.efds fd := by
  rw [bits]
  cases b.rfds fd <;> cases b.wfds fd <;> cases b.efds fd <;> decide

theorem bits_eq_zero_iff : bits b fd = 0#16 ↔ b.rfds fd = false ∧ b.wfds fd = false ∧ b.efds fd = false := by
  rw [bits]
  cases b.rfds fd <;> cases b.wfds fd <;> cases b.efds fd <;> decide

/-- The sets follow the mask of the event. -/
theorem Shows.meets {m : EvMask} (h : b.Shows fd (some m)) {bit : EvMask}
    (hbit : bit ∈ [evIoread, evIowrite, evIoexcept]) : (bits b fd).meets bit = m.meets bit := by
  obtain ⟨hread, hwrite, hexcept⟩ := bits_meets b fd
  simp only [List.mem_cons, List.not_mem_nil, or_false] at hbit
  rcases hbit with rfl | rfl | rfl
  · exact hread.trans h.read
  · exact hwrite.trans h.write
  · exact hexcept.trans h.except

end Bits

/-! ## A call in a run -/

section Launch
variable {s : Poller Select} {out : Select} {fd p : ℕ}

theorem keysNodup_register (h : KeysNodup s.events) (p : ℕ) : KeysNodup (s.register backend p).events := by
  cases hget : s.getEvent (s.objs p).evKey with
  | some q =>
    have hsame : s.register backend p = s := by
      simp only [Poller.register, Poller.addEvent, hget, Option.isSome_some, if_true, Bool.false_eq_true, if_false]
    rwa [hsame]
  | none =>
    have hevents : (s.register backend p).events = ((s.objs p).evKey, p) :: s.events := by
      simp only [Poller.register, Poller.addEvent, hget, Option.isSome_none, Bool.false_eq_true, if_false]
      rfl
    rw [hevents]
    exact h.cons hget p

theorem keysNodup_step {t : Poller Select} {op : Poller.Op} (h : KeysNodup s.events)
    (ht : Poller.step backend s op = some t) : KeysNodup t.events := by
  cases op with
  | add p =>
    cases ht
    exact keysNodup_register h p
  | cancel p =>
    cases ht
    exact h
  | update p op ev =>
    cases ht
    rw [Poller.updateEvent]
    split_ifs
    · exact h
    · rw [Poller.updateFd]
      split_ifs
      · exact h
      · exact h
  | del p =>
    cases ht
    exact h.eraseKey _

/-- Sets below those of the backend have no bits but those of the mask. -/
theorem meets_of_below (hs : s.InStep Shows) (hbelow : Below out s.backend) (hp : s.getEvent fd = some p)
    {bit : EvMask} (hbit : bit ∈ [evIoread, evIowrite, evIoexcept]) (hmeets : (bits out fd).meets bit) :
    (s.objs p).ev.meets bit := by
  have hshows := hs.shown fd
  rw [Poller.care_of_getEvent hp] at hshows
  rw [← hshows.meets hbit]
  obtain ⟨hread, hwrite, hexcept⟩ := bits_meets out fd
  obtain ⟨hread', hwrite', hexcept'⟩ := bits_meets s.backend fd
  simp only [List.mem_cons, List.not_mem_nil, or_false] at hbit
  rcases hbit with rfl | rfl | rfl
  · exact hread'.trans ((hbelow fd).1 (hread.symm.trans hmeets))
  · exact hwrite'.trans ((hbelow fd).2.1 (hwrite.symm.trans hmeets))
  · exact hexcept'.trans ((hbelow fd).2.2 (hexcept.symm.trans hmeets))

/-- So `PushActiveEvent` does not turn down what is reported. -/
theorem pushes_iff (hs : s.InStep Shows) (hbelow : Below out s.backend) (hp : s.getEvent fd = some p)
    (active : List ℕ) : Pushes out ⟨s, active⟩ fd p ↔ bits out fd ≠ 0#16 ∧ (s.objs p).centre = some 0 := by
  refine ⟨fun h => ⟨h.1, h.2.1⟩, fun h => ⟨h.1, h.2, ?_⟩⟩
  obtain ⟨hread, hwrite, hexcept⟩ := bits_meets out fd
  rw [meets_bits]
  cases hr : out.rfds fd with
  | true => simp [meets_of_below hs hbelow hp (by simp) (hread.trans hr)]
  | false =>
    cases hw : out.wfds fd with
    | true => simp [meets_of_below hs hbelow hp (by simp) (hwrite.trans hw)]
    | false =>
      cases hx : out.efds fd with
      | true => simp [meets_of_below hs hbelow hp (by simp) (hexcept.trans hx)]
      | false => exact absurd (bits_eq_zero_iff.mpr ⟨hr, hw, hx⟩) h.1

/-- An event is registered for one descriptor. -/
theorem nodup_events (hs : s.InStep Shows) (hkeys : KeysNodup s.events) : (s.events.map Prod.snd).Nodup := by
  apply List.Nodup.map_on _ (List.Nodup.of_map _ hkeys)
  intro x hx y hy hsame
  have hfd : x.1 = y.1 := by
    rw [← hs.key _ _ (lookup_of_mem hkeys hx), ← hs.key _ _ (lookup_of_mem hkeys hy), hsame]
  exact Prod.ext hfd hsame

/-- What a call does: an event of the centre is pushed once where its descriptor was taken to be ready, with the bits
that it is ready for and only such bits of its mask; nothing else happens. -/
structure PushesReported (s : Poller Select) (active : List ℕ) (answer : SelectAnswer) (l : Launching) : Prop where
  pushed : ∀ fd p, s.getEvent fd = some p →
    l.poller.objs p = (if reported s.backend answer fd ≠ 0#16 ∧ (s.objs p).centre = some 0 then
      (s.objs p).pushCurEv (reported s.backend answer fd) else s.objs p) ∧
    l.active.count p =
      active.count p + if reported s.backend answer fd ≠ 0#16 ∧ (s.objs p).centre = some 0 then 1 else 0
  masked : ∀ fd p, s.getEvent fd = some p → ∀ bit ∈ [evIoread, evIowrite, evIoexcept],
    (reported s.backend answer fd).meets bit → (s.objs p).ev.meets bit
  others : ∀ p, (∀ fd, s.getEvent fd ≠ some p) → l.poller.objs p = s.objs p ∧ l.active.count p = active.count p

theorem pushesReported_collect (hs : s.InStep Shows) (hkeys : KeysNodup s.events) (hbelow : Below out s.backend)
    (active : List ℕ) {answer : SelectAnswer} (hanswer : ∀ fd, reported s.backend answer fd = bits out fd) :
    PushesReported s active answer (collectEvent ⟨s, active⟩ out) := by
  have hget (entry : ℕ × ℕ) (hentry : entry ∈ s.events) : s.getEvent entry.1 = some entry.2 :=
    lookup_of_mem hkeys hentry
  refine ⟨fun fd p hp => ?_, fun fd p hp bit hbit hmeets => ?_, fun p hp => ?_⟩
  · obtain ⟨hobjs, hcount⟩ := collect_of_mem out (l := ⟨s, active⟩) hget (nodup_events hs hkeys) (mem_of_lookup hp)
    simp only [pushes_iff hs hbelow hp, ← hanswer] at hobjs hcount
    exact ⟨hobjs, hcount⟩
  · rw [hanswer] at hmeets
    exact meets_of_below hs hbelow hp hbit hmeets
  · apply collect_of_not_mem out hget
    intro hmem
    obtain ⟨entry, hentry, rfl⟩ := List.mem_map.mp hmem
    exact hp entry.1 (hget entry hentry)

/-- A call that comes back without descriptors. -/
theorem pushesReported_nothing (active : List ℕ) {answer : SelectAnswer}
    (hanswer : ∀ fd, reported s.backend answer fd = 0#16) : PushesReported s active answer ⟨s, active⟩ := by
  refine ⟨fun fd p hp => ?_, fun fd p hp bit hbit hmeets => ?_, fun p hp => ⟨rfl, rfl⟩⟩
  · rw [hanswer, if_neg fun h => h.1 rfl, if_neg fun h => h.1 rfl]
    exact ⟨rfl, rfl⟩
  · rw [hanswer, EvMask.meets, BitVec.zero_and, bne_self_eq_false] at hmeets
    cases hmeets

theorem pushesReported_launch (hs : s.InStep Shows) (hkeys : KeysNodup s.events) {answer : SelectAnswer}
    (hwithin : Within s.backend answer) (active : List ℕ) :
    PushesReported s active answer (launch ⟨s, active⟩ answer).2 := by
  cases answer with
  | failed errno =>
    rw [launch]
    split_ifs with hintr
    · exact pushesReported_collect hs hkeys (fun fd => ⟨id, id, id⟩) active fun fd => if_pos hintr
    · exact pushesReported_nothing active fun fd => if_neg hintr
  | timedOut => exact pushesReported_nothing active fun fd => rfl
  | ready out => exact pushesReported_collect hs hkeys hwithin active fun fd => rfl

/-- The event 1031 gets the descriptor of the event 7, which then enables what is enabled already. -/
def selectSample : List Poller.Op :=
  [.add 5, .add 7, .update 5 .del evIoread, .update 7 .del evIoread, .del 7, .add 1031, .update 1031 .add evIowrite,
    .update 7 .add evIowrite, .update 5 .add evIoread]

def selectEnd : Poller Select :=
  (exec (Poller.step backend) (.start (objsSample evIoread) empty) selectSample).get (by decide +kernel)

end Launch

end Chaos.Select
