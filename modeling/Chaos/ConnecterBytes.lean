import Chaos.ConnecterCallbacks

/-!
# The byte counts that the callbacks get

Runs of a `Connecter` with the bytes that `HandleRead` adds to the read buffer and those that the socket
accepts in `HandleWrite`, next to what the read callback and the write callback are called with. Both
handlers return at a hard error only, so that the -1 of a try-again error goes to the callback.
-/
namespace Chaos.Connecter

open GuardedRuns

/-! ## Accounts -/

/-- No report is negative, and together they give what was moved. -/
def Account (reports : List ℤ) (moved : ℕ) : Prop := (∀ n ∈ reports, 0 ≤ n) ∧ reports.sum = moved

/-- Reports without a negative one do not exceed what was moved. -/
def Covered (reports : List ℤ) (moved : ℕ) : Prop := (∀ n ∈ reports, 0 ≤ n) → reports.sum ≤ moved

theorem nonneg_append {reports : List ℤ} {report : Option ℤ} :
    (∀ n ∈ reports ++ report.toList, 0 ≤ n) ↔ (∀ n ∈ reports, 0 ≤ n) ∧ ∀ n ∈ report, 0 ≤ n := by
  simp only [List.mem_append, Option.mem_toList, Option.mem_def, or_imp, forall_and]

theorem sum_append_report (reports : List ℤ) (report : Option ℤ) :
    (reports ++ report.toList).sum = reports.sum + report.getD 0 := by
  cases report <;> simp

section Account
variable {reports : List ℤ} {report : Option ℤ} {moved more : ℕ}

theorem getD_le (hle : ∀ n ∈ report, n ≤ (more : ℤ)) : report.getD 0 ≤ more := by
  cases report with
  | none => exact Int.natCast_nonneg more
  | some n => exact hle n rfl

theorem Covered.append (h : Covered reports moved) (hle : ∀ n ∈ report, n ≤ (more : ℤ)) :
    Covered (reports ++ report.toList) (moved + more) := by
  intro hpos
  have hold := h (nonneg_append.mp hpos).1
  have hnew := getD_le hle
  rw [sum_append_report]
  omega

/-- A report of at most what was moved keeps the account just when it is exact. -/
theorem Covered.account_iff (h : Covered reports moved) (hle : ∀ n ∈ report, n ≤ (more : ℤ)) :
    Account (reports ++ report.toList) (moved + more) ↔ Account reports moved ∧ report.getD 0 = more := by
  have hnew := getD_le hle
  rw [Account, Account, nonneg_append, sum_append_report]
  constructor
  · rintro ⟨⟨hpos, _⟩, hsum⟩
    have hold := h hpos
    exact ⟨⟨hpos, by omega⟩, by omega⟩
  · rintro ⟨⟨hpos, hsum⟩, hexact⟩
    refine ⟨⟨hpos, fun n hn => ?_⟩, by omega⟩
    rw [Option.mem_def] at hn
    rw [hn, Option.getD_some] at hexact
    omega

end Account

/-! ## The run -/

def readReport : Callback → Option ℤ
  | .read n => some n
  | _ => none

def writeReport : Callback → Option ℤ
  | .write n => some n
  | _ => none

/-- `added` counts the bytes that `HandleRead` has added to the read buffer, `accepted` those that the
socket has taken in `Send`. -/
structure ByteRun where
  round : ConnRound
  added : ℕ
  accepted : ℕ

def ByteRun.start : ByteRun := ⟨.start, 0, 0⟩

namespace ByteRun

variable (s : ByteRun)

def readReports : List ℤ := s.round.calls.filterMap fun c => readReport c.1

def writeReports : List ℤ := s.round.calls.filterMap fun c => writeReport c.1

end ByteRun

/-- What a step adds to the read buffer. -/
def addedBy (s : ConnRound) : RoundOp → ℕ
  | .readHalf unreadByte recv => match s.phase with
    | .readHalf ev => if ev.meets evIoread then
        (s.conn.handleRead unreadByte recv).1.readBuffer.length - s.conn.readBuffer.length else 0
    | _ => 0
  | _ => 0

/-- What the socket takes in a call of `Send`. -/
def taken : SocketResult ℕ → ℕ
  | .done n => n
  | .failed _ => 0

/-- What the socket takes in a step; `Send` is called with something queued only. -/
def acceptedBy (s : ConnRound) : RoundOp → ℕ
  | .writeHalf send => match s.phase with
    | .writeHalf ev => if ev.meets evIowrite = true ∧ s.conn.writeBuffer ≠ [] then taken send else 0
    | _ => 0
  | _ => 0

def byteStep (s : ByteRun) (op : RoundOp) : Option ByteRun :=
  (roundStep s.round op).map fun r => ⟨r, s.added + addedBy s.round op, s.accepted + acceptedBy s.round op⟩

/-- Bytes that were received meet a read callback, and an error to be tried again meets none. -/
def recvOk (c : Connecter) : SocketResult (List UInt8) → Prop
  | .done data => data ≠ [] → c.readcb = true
  | .failed e => socketErrNotTryAgain e = false → c.readcb = false

/-- The same for bytes that were sent and the write callback. -/
def sendOk (c : Connecter) : SocketResult ℕ → Prop
  | .done n => n ≠ 0 → c.writecb = true
  | .failed e => socketErrNotTryAgain e = false → c.writecb = false

def byteOk (s : ByteRun) : RoundOp → Prop
  | .readHalf _ recv => match s.round.phase with
    | .readHalf ev => ev.meets evIoread = true → recvOk s.round.conn recv
    | _ => True
  | .writeHalf send => match s.round.phase with
    | .writeHalf ev => ev.meets evIowrite = true → s.round.conn.writeBuffer ≠ [] → sendOk s.round.conn send
    | _ => True
  | _ => True

instance (c : Connecter) : (recv : SocketResult (List UInt8)) → Decidable (c.recvOk recv)
  | .done data => inferInstanceAs (Decidable (data ≠ [] → c.readcb = true))
  | .failed e => inferInstanceAs (Decidable (socketErrNotTryAgain e = false → c.readcb = false))

instance (c : Connecter) : (send : SocketResult ℕ) → Decidable (c.sendOk send)
  | .done n => inferInstanceAs (Decidable (n ≠ 0 → c.writecb = true))
  | .failed e => inferInstanceAs (Decidable (socketErrNotTryAgain e = false → c.writecb = false))

instance : (s : ByteRun) → (op : RoundOp) → Decidable (byteOk s op)
  | ⟨⟨_, .readHalf _, _, _⟩, _, _⟩, .readHalf _ _ => inferInstanceAs (Decidable (_ → recvOk _ _))
  | ⟨⟨_, .idle, _, _⟩, _, _⟩, .readHalf _ _ | ⟨⟨_, .readCall _, _, _⟩, _, _⟩, .readHalf _ _
  | ⟨⟨_, .writeHalf _, _, _⟩, _, _⟩, .readHalf _ _ | ⟨⟨_, .writeCall, _, _⟩, _, _⟩, .readHalf _ _ =>
    inferInstanceAs (Decidable True)
  | ⟨⟨_, .writeHalf _, _, _⟩, _, _⟩, .writeHalf _ => inferInstanceAs (Decidable (_ → _ → sendOk _ _))
  | ⟨⟨_, .idle, _, _⟩, _, _⟩, .writeHalf _ | ⟨⟨_, .readHalf _, _, _⟩, _, _⟩, .writeHalf _
  | ⟨⟨_, .readCall _, _, _⟩, _, _⟩, .writeHalf _ | ⟨⟨_, .writeCall, _, _⟩, _, _⟩, .writeHalf _ =>
    inferInstanceAs (Decidable True)
  | _, .activate _ | _, .take | _, .user _ | _, .ret => inferInstanceAs (Decidable True)

/-! ## The handlers -/

section Handlers
variable (c : Connecter)

theorem callErr_reports (e : ℤ) :
    (c.callErr e).2.bind readReport = none ∧ (c.callErr e).2.bind writeReport = none := by
  rw [callErr_call]
  split_ifs <;> exact ⟨rfl, rfl⟩

/-- `HandleRead` reports at most what it adds, and exactly that just when `recvOk` holds. -/
theorem handleRead_reports (unreadByte : ℤ) (recv : SocketResult (List UInt8)) :
    (∀ n ∈ (c.handleRead unreadByte recv).2.bind readReport,
      n ≤ ((c.handleRead unreadByte recv).1.readBuffer.length - c.readBuffer.length : ℕ)) ∧
      (((c.handleRead unreadByte recv).2.bind readReport).getD 0 =
        ((c.handleRead unreadByte recv).1.readBuffer.length - c.readBuffer.length : ℕ) ↔ c.recvOk recv) ∧
      (c.handleRead unreadByte recv).2.bind writeReport = none := by
  cases recv with
  | failed e =>
    cases he : socketErrNotTryAgain e with
    | true => simp [handleRead, he, callErr_reports, recvOk]
    | false => cases hcb : c.readcb <;> simp [handleRead, he, finishRead_call, hcb, readReport, writeReport, recvOk]
  | done data =>
    cases data with
    | nil => simp [handleRead, callErr_reports, recvOk]
    | cons a data =>
      cases hcb : c.readcb with
      | true => simp [handleRead, finishRead_call, hcb, readReport, writeReport, recvOk]
      | false =>
        simp [handleRead, finishRead_call, hcb, recvOk]
        omega

/-- `HandleWrite` does the same with what the socket takes. -/
theorem handleWrite_reports (hne : c.writeBuffer ≠ []) (send : SocketResult ℕ) :
    (∀ n ∈ (c.handleWrite send).2.bind writeReport, n ≤ (taken send : ℤ)) ∧
      (((c.handleWrite send).2.bind writeReport).getD 0 = (taken send : ℤ) ↔ c.sendOk send) ∧
      (c.handleWrite send).2.bind readReport = none := by
  cases send with
  | failed e =>
    cases he : socketErrNotTryAgain e with
    | true => simp [handleWrite, hne, he, callErr_reports, sendOk, taken]
    | false =>
      cases hcb : c.writecb <;>
        simp [handleWrite, hne, he, finishWrite_call, hcb, readReport, writeReport, sendOk, taken]
  | done n =>
    cases hcb : c.writecb with
    | true => simp [handleWrite, hne, finishWrite_call, hcb, readReport, writeReport, sendOk, taken]
    | false =>
      simp [handleWrite, hne, finishWrite_call, hcb, sendOk, taken]
      omega

end Handlers

/-! ## Steps and runs -/

section Steps
variable {s t : ByteRun} {op : RoundOp}

theorem update_reports (f : Callback → Option ℤ) (u : ConnRound) (r : Connecter × Option Callback) :
    ((u.update r).calls.filterMap fun c => f c.1) =
      (u.calls.filterMap fun c => f c.1) ++ (r.2.bind f).toList := by
  simp only [ConnRound.update, List.filterMap_append]
  cases r.2 with
  | none => rfl
  | some cb => cases hf : f cb <;> simp [hf]

/-- A step ends with at most one callback. -/
structure StepReports (s t : ByteRun) (op : RoundOp) (cb : Option Callback) : Prop where
  calls : ∀ f : Callback → Option ℤ, (t.round.calls.filterMap fun c => f c.1) =
    (s.round.calls.filterMap fun c => f c.1) ++ (cb.bind f).toList
  added : ∀ n ∈ cb.bind readReport, n ≤ (addedBy s.round op : ℤ)
  accepted : ∀ n ∈ cb.bind writeReport, n ≤ (acceptedBy s.round op : ℤ)
  exact_iff : (cb.bind readReport).getD 0 = (addedBy s.round op : ℤ) ∧
    (cb.bind writeReport).getD 0 = (acceptedBy s.round op : ℤ) ↔ byteOk s op

/-- A step without a callback that moves nothing. -/
theorem StepReports.quiet (hcalls : t.round.calls = s.round.calls) (hadded : addedBy s.round op = 0)
    (haccepted : acceptedBy s.round op = 0) (hok : byteOk s op) : StepReports s t op none where
  calls f := by simp [hcalls]
  added n hn := by cases hn
  accepted n hn := by cases hn
  exact_iff := by simp [hadded, haccepted, hok]

theorem stepReports_readHalf {unreadByte : ℤ} {recv : SocketResult (List UInt8)} {ev : EvMask}
    (hphase : s.round.phase = .readHalf ev)
    (ht : t.round = runReadHalf s.round unreadByte recv ev) :
    ∃ cb, StepReports s t (.readHalf unreadByte recv) cb := by
  cases hev : ev.meets evIoread with
  | false =>
    refine ⟨none, .quiet ?_ (by simp [addedBy, hphase, hev]) rfl ?_⟩
    · rw [ht, runReadHalf, hev]
      rfl
    · simp [byteOk, hphase, hev]
  | true =>
    obtain ⟨hle, hexact, hwrite⟩ := handleRead_reports s.round.conn unreadByte recv
    have hadded : addedBy s.round (.readHalf unreadByte recv) =
        (s.round.conn.handleRead unreadByte recv).1.readBuffer.length - s.round.conn.readBuffer.length := by
      simp [addedBy, hphase, hev]
    refine ⟨(s.round.conn.handleRead unreadByte recv).2, ⟨fun f => ?_, ?_, ?_, ?_⟩⟩
    · rw [ht, runReadHalf, hev]
      exact update_reports f s.round _
    · rw [hadded]
      exact hle
    · rw [hwrite]
      intro n hn
      cases hn
    · rw [hadded, hexact, hwrite]
      simp [byteOk, hphase, hev, acceptedBy]

theorem stepReports_writeHalf {send : SocketResult ℕ} {ev : EvMask} (hphase : s.round.phase = .writeHalf ev)
    (ht : t.round = runWriteHalf s.round send ev) : ∃ cb, StepReports s t (.writeHalf send) cb := by
  by_cases hsends : ev.meets evIowrite = true ∧ s.round.conn.writeBuffer ≠ []
  · obtain ⟨hev, hne⟩ := hsends
    have haccepted : acceptedBy s.round (.writeHalf send) = taken send := by
      simp [acceptedBy, hphase, hev, hne]
    obtain ⟨hle, hexact, hread⟩ := handleWrite_reports s.round.conn hne send
    rw [← haccepted] at hle hexact
    refine ⟨(s.round.conn.handleWrite send).2, ⟨fun f => ?_, ?_, hle, ?_⟩⟩
    · rw [ht, runWriteHalf, hev]
      simp only [if_true]
      split_ifs with hcall
      · exact update_reports f s.round _
      · rw [Option.not_isSome_iff_eq_none.mp hcall]
        simp [endHandle, ConnRound.update]
    · rw [hread]
      intro n hn
      cases hn
    · rw [hexact, hread]
      simp [byteOk, hphase, hev, hne, addedBy]
  · have haccepted : acceptedBy s.round (.writeHalf send) = 0 := by
      simp only [acceptedBy, hphase, if_neg hsends]
    refine ⟨none, .quiet ?_ rfl haccepted ?_⟩
    · have hquiet (u : ConnRound) (c : Connecter) : (u.update (c, none)).calls = u.calls := by
        simp [ConnRound.update]
      rw [ht, runWriteHalf]
      cases hev : ev.meets evIowrite with
      | false => exact hquiet s.round _
      | true =>
        have hempty : s.round.conn.writeBuffer = [] := by
          by_contra hne
          exact hsends ⟨hev, hne⟩
        simp [handleWrite, hempty, endHandle, hquiet]
    · simp only [byteOk, hphase]
      exact fun hev hne => absurd ⟨hev, hne⟩ hsends

theorem stepReports_of_byteStep (ht : byteStep s op = some t) : ∃ cb, StepReports s t op cb := by
  obtain ⟨u, hu, rfl⟩ := Option.map_eq_some_iff.mp ht
  cases roundPass_of_step hu with
  | activate hphase hactive => exact ⟨none, .quiet rfl rfl rfl trivial⟩
  | take hphase =>
    refine ⟨none, .quiet ?_ rfl rfl trivial⟩
    dsimp only
    rw [startHandle]
    split_ifs <;> rfl
  | readHalf hp => exact stepReports_readHalf hp rfl
  | writeHalf hp hfits => exact stepReports_writeHalf hp rfl
  | user hcode hcall => exact ⟨none, .quiet (by simp [ConnRound.update]) rfl rfl trivial⟩
  | retRead hp => exact ⟨none, .quiet rfl rfl rfl trivial⟩
  | retWrite hp => exact ⟨none, .quiet (by simp [endHandle, ConnRound.update]) rfl rfl trivial⟩

/-- The two accounts of a run. -/
def BytesAccounted (s : ByteRun) : Prop :=
  Account s.readReports s.added ∧ Account s.writeReports s.accepted

def BytesCovered (s : ByteRun) : Prop :=
  Covered s.readReports s.added ∧ Covered s.writeReports s.accepted

/-- The step lemma: a step keeps the accounts just when it meets `byteOk`. -/
theorem bytesAccounted_step (hs : BytesCovered s) (ht : byteStep s op = some t) :
    BytesCovered t ∧ (BytesAccounted t ↔ BytesAccounted s ∧ byteOk s op) := by
  obtain ⟨cb, h⟩ := stepReports_of_byteStep ht
  have hread : t.readReports = s.readReports ++ (cb.bind readReport).toList := h.calls readReport
  have hwrite : t.writeReports = s.writeReports ++ (cb.bind writeReport).toList := h.calls writeReport
  obtain ⟨u, _, rfl⟩ := Option.map_eq_some_iff.mp ht
  rw [BytesCovered, BytesAccounted, hread, hwrite]
  refine ⟨⟨hs.1.append h.added, hs.2.append h.accepted⟩, ?_⟩
  rw [hs.1.account_iff h.added, hs.2.account_iff h.accepted, ← h.exact_iff, BytesAccounted]
  tauto

end Steps

/-- In every run, the values given to the read callback add up to the bytes added to the read buffer, those
given to the write callback to the bytes that the socket accepted, and none is negative, if and only if no
try-again error meets a callback and all bytes that are moved do. -/
theorem bytes_accounted_iff {ops : List RoundOp} {s : ByteRun} (hs : exec byteStep .start ops = some s) :
    ((∀ n ∈ s.readReports, 0 ≤ n) ∧ s.readReports.sum = s.added) ∧
      ((∀ n ∈ s.writeReports, 0 ≤ n) ∧ s.writeReports.sum = s.accepted) ↔
        Guarded byteStep byteOk .start ops := by
  have hstart : BytesAccounted .start :=
    ⟨⟨by simp [ByteRun.readReports, ByteRun.start, ConnRound.start], rfl⟩,
      ⟨by simp [ByteRun.writeReports, ByteRun.start, ConnRound.start], rfl⟩⟩
  have hcovered : BytesCovered .start := ⟨fun _ => le_rfl, fun _ => le_rfl⟩
  exact (good_iff_guarded (fun _ _ _ => bytesAccounted_step) hcovered hs).trans (and_iff_right hstart)

/-- A short read, a send that stops half way and one with nothing queued. -/
def byteSample : List RoundOp :=
  [.user (.register 1), .user (.setCallbacks true true true), .user (.write [1, 2, 3] true),
    .activate (evIoread ||| evIowrite), .take, .readHalf 5 (.done [7, 8]), .ret, .writeHalf (.done 2), .ret,
    .activate (evIoread ||| evIowrite), .take, .readHalf 3 (.done [9]), .ret, .writeHalf (.done 1), .ret,
    .user (.enable evIowrite), .activate evIowrite, .take, .readHalf 0 (.done []), .writeHalf (.done 0)]

def byteSampleEnd : ByteRun := (exec byteStep .start byteSample).get (by decide +kernel)

theorem bytes_accounted_iff_sample :
    ((∀ n ∈ byteSampleEnd.readReports, 0 ≤ n) ∧ byteSampleEnd.readReports.sum = byteSampleEnd.added) ∧
      ((∀ n ∈ byteSampleEnd.writeReports, 0 ≤ n) ∧ byteSampleEnd.writeReports.sum = byteSampleEnd.accepted) :=
  (bytes_accounted_iff (Option.some_get _).symm).mpr
    (show Guarded byteStep byteOk .start byteSample by decide +kernel)

/-- A read that is to be tried again calls the read callback with -1. -/
theorem not_bytes_accounted : ¬ ∀ (ops : List RoundOp) (s : ByteRun), exec byteStep .start ops = some s →
    (∀ n ∈ s.readReports ++ s.writeReports, 0 ≤ n) := by
  intro h
  have hrun := h [.user (.register 1), .user (.setCallbacks true true true), .activate evIoread, .take,
    .readHalf 4 (.failed eagain)] _ (Option.some_get (by decide +kernel)).symm
  revert hrun
  decide +kernel

end Chaos.Connecter
