import Chaos.DBPool
import Chaos.ThreadPoolSteps

/-!
# What a step of a pool of connections does

`DBPoolPass` says for each step what it does, with everything that the code has checked before it. The thread pool
only takes steps of its own, or the one that a call begins with.
-/
namespace Chaos

/-- The steps of a `Work`. -/
inductive DBWorkMove (s : DBPool) (connected : Bool) : DBWorkPc → DBWorkPc → Prop where
  | connects (h : s.connects connected = true) : DBWorkMove s connected .connecting .counting
  | fails (h : s.connects connected = false) : DBWorkMove s connected .connecting .ended
  | counts : DBWorkMove s connected .counting .outer
  | loops (h : s.started = true) : DBWorkMove s connected .outer .waiting
  | leaves (h : s.started = false) : DBWorkMove s connected .outer .uncounting
  | pings : DBWorkMove s connected .waiting .outer
  | queries (cmd : String) : DBWorkMove s connected .waiting (.querying cmd)
  | answers {cmd : String} (h : s.createDBBase ≠ none) : DBWorkMove s connected (.querying cmd) .outer
  | noResult {cmd : String} (h : s.createDBBase = none) : DBWorkMove s connected (.querying cmd) .ended
  | uncounts : DBWorkMove s connected .uncounting .ended

inductive DBPoolPass (s : DBPool) : DBPoolOp → DBPool → Prop where
  | thread {op : ThreadPoolOp} {p : ThreadPool} (hown : s.threadPool.own op = true)
      (hp : ThreadPoolPass s.threadPool op p) : DBPoolPass s (.thread op) { s with threadPool := p }
  | work {i : ℕ} {connected : Bool} {pc pc' : DBWorkPc} {liveConnNum : ℤ} {rq : List String}
      (hbusy : s.busy i = true) (hi : s.works[i]? = some pc) (hmove : DBWorkMove s connected pc pc') :
      DBPoolPass s (.work i connected)
        { s with works := s.works.set i pc', liveConnNum := liveConnNum, rq := rq }
  | workEnd {i : ℕ} {p : ThreadPool} (hbusy : s.busy i = true) (hi : s.works[i]? = some .ended)
      (hp : ThreadPoolPass s.threadPool (.work i) p) :
      DBPoolPass s (.workEnd i) { s with threadPool := p, works := s.works.set i .connecting }
  | startAgain (hcaller : s.caller = .idle) (hstarted : s.started = true) : DBPoolPass s .start s
  | start {p : ThreadPool} (hcaller : s.caller = .idle) (hstarted : s.started = false)
      (hp : ThreadPoolPass s.threadPool .run p) :
      DBPoolPass s .start { s with threadPool := p, caller := .running, startCalled := true }
  | runEnd (hcaller : s.caller = .running) (hidle : s.threadPool.caller = .idle) :
      DBPoolPass s .runEnd { s with caller := .pushing true s.maxConn.toNat }
  | pushTask {starting : Bool} {left : ℕ} {p : ThreadPool} (hcaller : s.caller = .pushing starting (left + 1))
      (hp : ThreadPoolPass s.threadPool (.pushTask false) p) : DBPoolPass s .pushTask
        { s with threadPool := p, caller := .awaiting starting left s.threadPool.pushes.length }
  | pushEnd {starting : Bool} {left k : ℕ} (hcaller : s.caller = .awaiting starting left k)
      (hk : s.threadPool.pushes[k]? = some .returned ∨ s.threadPool.pushes[k]? = some .refused) :
      DBPoolPass s .pushEnd { s with caller := .pushing starting left }
  | callEnd {starting : Bool} (hcaller : s.caller = .pushing starting 0) :
      DBPoolPass s .callEnd { s with started := starting || s.started, caller := .idle }
  | stop (hcaller : s.caller = .idle) : DBPoolPass s .stop { s with started := false }
  | query (cmd : String) : DBPoolPass s (.query cmd) { s with rq := s.rq ++ [cmd] }
  | nothingToRecover (hcaller : s.caller = .idle) : DBPoolPass s .recover s
  | recover (hcaller : s.caller = .idle) (hstarted : s.started = true) (hlive : s.liveConnNum < s.maxConn) :
      DBPoolPass s .recover { s with caller := .pushing false (s.maxConn - s.liveConnNum).toNat }
  | destroyStarted {p : ThreadPool} (hcaller : s.caller = .idle) (hstarted : s.started = true)
      (hp : ThreadPoolPass s.threadPool .stop p) : DBPoolPass s .destroy
        { s with threadPool := p, caller := .stopping s.threadPool.stops.length }
  | destroyStopped {p : ThreadPool} (hcaller : s.caller = .idle) (hstarted : s.started = false)
      (hp : ThreadPoolPass s.threadPool .destroy p) :
      DBPoolPass s .destroy { s with threadPool := p, caller := .deleting }
  | delete {c : ℕ} {p : ThreadPool} (hcaller : s.caller = .stopping c)
      (hc : s.threadPool.stops[c]? = some .returned) (hp : ThreadPoolPass s.threadPool .destroy p) :
      DBPoolPass s .delete { s with threadPool := p, caller := .deleting }

namespace DBPool

variable {s t : DBPool}

theorem onPool_eq_some {op : ThreadPoolOp} {next : ThreadPool → DBPool} (h : s.onPool op next = some t) :
    ∃ p, ThreadPoolPass s.threadPool op p ∧ t = next p := by
  obtain ⟨p, hp, ht⟩ := Option.map_eq_some_iff.mp h
  exact ⟨p, threadPoolPass_of_step hp, ht.symm⟩

theorem work_pass {i : ℕ} {connected : Bool} (h : s.step (.work i connected) = some t) :
    DBPoolPass s (.work i connected) t := by
  obtain ⟨hbusy, hbind⟩ := Option.ite_none_right_eq_some.mp h
  obtain ⟨pc, hi, hwork⟩ := Option.bind_eq_some_iff.mp hbind
  cases pc with
  | connecting =>
    cases hwork
    split_ifs with hconnects
    · exact .work hbusy hi (.connects hconnects)
    · exact .work hbusy hi (.fails (Bool.eq_false_iff.mpr hconnects))
  | counting =>
    cases hwork
    exact .work hbusy hi .counts
  | outer =>
    cases hwork
    split_ifs with hstarted
    · exact .work hbusy hi (.loops hstarted)
    · exact .work hbusy hi (.leaves (Bool.eq_false_iff.mpr hstarted))
  | waiting =>
    cases hrq : s.rq with
    | nil =>
      simp only [DBPool.work, hrq, Option.some.injEq] at hwork
      exact hwork ▸ .work hbusy hi .pings
    | cons cmd rest =>
      simp only [DBPool.work, hrq, Option.some.injEq] at hwork
      exact hwork ▸ .work hbusy hi (.queries cmd)
  | querying cmd =>
    cases hwork
    split_ifs with hresult
    · exact .work hbusy hi (.answers (Option.isSome_iff_ne_none.mp hresult))
    · exact .work hbusy hi (.noResult (Option.not_isSome_iff_eq_none.mp hresult))
  | uncounting =>
    cases hwork
    exact .work hbusy hi .uncounts
  | ended => cases hwork

/-- The calls of the thread that makes them one after the other. -/
theorem call_pass {op : DBPoolOp} (h : s.step op = some t)
    (hop : op ∈ [.start, .runEnd, .pushTask, .pushEnd, .callEnd, .stop, .recover, .destroy, .delete]) :
    DBPoolPass s op t := by
  cases op with
  | thread | work | workEnd | query => simp at hop
  | start =>
    obtain ⟨hcaller, ht⟩ := Option.ite_none_right_eq_some.mp h
    rw [DBPool.start] at ht
    split_ifs at ht with hstarted
    · cases ht
      exact .startAgain hcaller hstarted
    · obtain ⟨p, hp, rfl⟩ := onPool_eq_some ht
      exact .start hcaller (Bool.eq_false_iff.mpr hstarted) hp
  | runEnd =>
    obtain ⟨⟨hcaller, hidle⟩, ht⟩ := Option.ite_none_right_eq_some.mp h
    cases ht
    exact .runEnd hcaller hidle
  | pushTask =>
    simp only [DBPool.step] at h
    split at h
    · rename_i starting left hcaller
      obtain ⟨p, hp, rfl⟩ := onPool_eq_some h
      exact .pushTask hcaller hp
    · cases h
  | pushEnd =>
    simp only [DBPool.step] at h
    split at h
    · rename_i starting left k hcaller
      obtain ⟨hk, ht⟩ := Option.ite_none_right_eq_some.mp h
      cases ht
      exact .pushEnd hcaller hk
    · cases h
  | callEnd =>
    simp only [DBPool.step] at h
    split at h
    · rename_i starting hcaller
      cases h
      exact .callEnd hcaller
    · cases h
  | stop =>
    obtain ⟨hcaller, ht⟩ := Option.ite_none_right_eq_some.mp h
    cases ht
    exact .stop hcaller
  | recover =>
    obtain ⟨hcaller, ht⟩ := Option.ite_none_right_eq_some.mp h
    cases ht
    rw [DBPool.recover]
    split_ifs with hskip
    · exact .nothingToRecover hcaller
    · simp only [Bool.or_eq_true, Bool.not_eq_true', decide_eq_true_eq, not_or, Bool.not_eq_false, not_le] at hskip
      exact .recover hcaller hskip.1 hskip.2
  | destroy =>
    obtain ⟨hcaller, ht⟩ := Option.ite_none_right_eq_some.mp h
    rw [DBPool.destroy] at ht
    split_ifs at ht with hstarted
    · obtain ⟨p, hp, rfl⟩ := onPool_eq_some ht
      exact .destroyStarted hcaller hstarted hp
    · obtain ⟨p, hp, rfl⟩ := onPool_eq_some ht
      exact .destroyStopped hcaller (Bool.eq_false_iff.mpr hstarted) hp
  | delete =>
    simp only [DBPool.step] at h
    split at h
    · rename_i c hcaller
      obtain ⟨hc, ht⟩ := Option.ite_none_right_eq_some.mp h
      obtain ⟨p, hp, rfl⟩ := onPool_eq_some ht
      exact .delete hcaller hc hp
    · cases h

/-- Every step is one of the cases. -/
theorem dbPoolPass_of_step {op : DBPoolOp} (h : s.step op = some t) : DBPoolPass s op t := by
  cases op with
  | thread op =>
    obtain ⟨hown, ht⟩ := Option.ite_none_right_eq_some.mp h
    obtain ⟨p, hp, rfl⟩ := onPool_eq_some ht
    exact .thread hown hp
  | work i connected => exact work_pass h
  | workEnd i =>
    obtain ⟨⟨hbusy, hi⟩, ht⟩ := Option.ite_none_right_eq_some.mp h
    obtain ⟨p, hp, rfl⟩ := onPool_eq_some ht
    exact .workEnd hbusy hi hp
  | query cmd =>
    cases h
    exact .query cmd
  | start | runEnd | pushTask | pushEnd | callEnd | stop | recover | destroy | delete =>
    exact call_pass h (by simp)

end DBPool

end Chaos
