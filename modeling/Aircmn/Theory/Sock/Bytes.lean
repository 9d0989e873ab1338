import Aircmn.Core.Sock
import Aircmn.Lib.Monitor

/-!
# Bytes of a Connection

A call of `sock_send` or `sock_recv` ends with the first answer of the kernel
that is not an interruption (`sockRetry_cases`). If that answer has moved
bytes, they are the first of the buffer, the call returns their number, and
the counter of the direction takes it in. No other answer moves anything, and
only a failure that is final touches `err`. So what a run of calls has sent is
the concatenation of what the positive results stand for, and a caller that
goes on where its last result ended has sent its stream as far as the results
add up.

The counters are `size_t` and wrap.

## Main definitions

* `posSum`: The sum of the positive results.
* `FailedWith`, `ErrExact`, `RecvExact`, `SendExact`, `CallExact`: What a call
  does.
* `SockCall.Proper`: A call that is interrupted only so often.
* `Advances`: A caller that goes on where its last result ended.
* `SockCounts`: The counters, and the results so far.

## Theorems

* `sockRetry_cases`, `sockRetry_returns`: How the loop ends, and that it does.
* `sockRetry_exact`, `sockRecv_exact`, `sockSend_exact`: One call.
* `sockCall_exact`, `sockCall_returns`: One step.
* `sockCall_counts`, `sockCall_sent`: What a step adds.
* `sock_bytes_exact`: A run.
* `sock_two_pieces`: A stream that is sent in two pieces.
* `sock_sends`, `sock_count_wraps`: A counter that has wrapped.
-/

namespace Aircmn

open Bytes Machine

/-- The sum of the positive results. -/
def posSum (rets : List Int) : Nat := (rets.map Int.toNat).sum

theorem posSum_append (rets : List Int) (ret : Int) :
    posSum (rets ++ [ret]) = posSum rets + ret.toNat := by
  rw [posSum, List.map_append, List.sum_append]
  simp [posSum]

/-- After interruptions the kernel has failed with `errno`, for good. -/
def FailedWith (answers : List IoAnswer) (errno : Int32) : Prop :=
  errno ≠ eintr ∧ errno ≠ eagain ∧
    ∃ j rest, answers = List.replicate j (.failed eintr) ++ .failed errno :: rest

/-- Only a call that returns `CMN_ERROR` touches `err`. -/
def ErrExact (c c' : SockConn) (answers : List IoAnswer) (ret : Int) : Prop :=
  (ret ≠ cmnError → c'.err = c.err) ∧ (ret = cmnError → FailedWith answers c'.err)

/-- A call of `sock_recv` that returns `ret`. -/
structure RecvExact (source : Nat → UInt8) (s s' : SockIo) (buf nbyte : Nat)
    (answers : List IoAnswer) (ret : Int) : Prop where
  le : ret ≤ nbyte
  stored : ∀ i, i < ret.toNat → s'.mem (buf + i) = source (s.taken + i)
  outside : SameOutside buf (buf + ret.toNat) s.mem s'.mem
  taken : s'.taken = s.taken + ret.toNat
  counted : s'.conn.recvNbyte = s.conn.recvNbyte + UInt64.ofNat ret.toNat
  err : ErrExact s.conn s'.conn answers ret
  other : s'.sent = s.sent ∧ s'.conn.sendNbyte = s.conn.sendNbyte

/-- A call of `sock_send` that returns `ret`. -/
structure SendExact (s s' : SockIo) (buf nbyte : Nat) (answers : List IoAnswer) (ret : Int) :
    Prop where
  le : ret ≤ nbyte
  sent : s'.sent = s.sent ++ slice s.mem buf ret.toNat
  counted : s'.conn.sendNbyte = s.conn.sendNbyte + UInt64.ofNat ret.toNat
  err : ErrExact s.conn s'.conn answers ret
  other : s'.mem = s.mem ∧ s'.taken = s.taken ∧ s'.conn.recvNbyte = s.conn.recvNbyte

/-- A step does what it should. -/
def CallExact (source : Nat → UInt8) (r : SockRun) (call : SockCall) (r' : SockRun) : Prop :=
  match call with
  | .recv buf nbyte answers => ∃ ret, r'.recvRets = r.recvRets ++ [ret] ∧
      r'.sendRets = r.sendRets ∧ RecvExact source r.io r'.io buf nbyte answers ret
  | .send buf nbyte answers => ∃ ret, r'.sendRets = r.sendRets ++ [ret] ∧
      r'.recvRets = r.recvRets ∧ SendExact r.io r'.io buf nbyte answers ret
  | .program mem => r' = { r with io := { r.io with mem := mem } }

/-- How the loop ends: with bytes, without any, or with an error. -/
theorem sockRetry_cases (s s' : SockIo) (moved : Nat → SockIo) (ret : Int) :
    ∀ answers : List IoAnswer, sockRetry s moved answers = some (ret, s') →
      (∃ n, .moved n ∈ answers ∧ ret = (Int32.ofNat n).toInt ∧ s' = moved n) ∨
      (ret ≤ 0 ∧ ret ≠ cmnError ∧ s' = s) ∨
      (∃ errno, FailedWith answers errno ∧ ret = cmnError ∧
        s' = { s with conn := { s.conn with err := errno } }) := by
  intro answers
  induction answers with
  -- With no answer left the loop is still waiting, and a call that has returned has had one.
  | nil =>
      intro h
      exact absurd h.symm (Option.some_ne_none _)
  | cons a answers ih =>
      intro h
      cases a with
      -- Bytes were moved: the loop ends with their number.
      | moved n =>
          rw [sockRetry, Option.some.injEq, Prod.mk.injEq] at h
          exact Or.inl ⟨n, List.mem_cons_self, h.1.symm, h.2.symm⟩
      | zero =>
          rw [sockRetry, Option.some.injEq, Prod.mk.injEq] at h
          -- Nothing moved and nothing failed, as after a close by the other side.
          exact Or.inr (Or.inl ⟨by rw [← h.1]; decide, by rw [← h.1]; decide, h.2.symm⟩)
      | failed errno =>
          rw [sockRetry] at h
          split at h
          · -- An interruption, and what the rest of the answers has done.
            next heintr =>
              rcases ih h with ⟨n, hn, hret, hs'⟩ | hnone | ⟨e, ⟨hne, hne', j, rest, hj⟩, hret, hs'⟩
              · exact Or.inl ⟨n, List.mem_cons_of_mem _ hn, hret, hs'⟩
              · exact Or.inr (Or.inl hnone)
              · refine Or.inr (Or.inr ⟨e, ⟨hne, hne', j + 1, rest, ?_⟩, hret, hs'⟩)
                rw [hj, heintr, List.replicate_succ, List.cons_append]
          -- Any other failure ends the loop, and err keeps its number unless it is EAGAIN.
          · next heintr =>
              split at h
              · rw [Option.some.injEq, Prod.mk.injEq] at h
                exact Or.inr (Or.inl ⟨by rw [← h.1]; decide, by rw [← h.1]; decide, h.2.symm⟩)
              · next heagain =>
                  rw [Option.some.injEq, Prod.mk.injEq] at h
                  have hfailed : FailedWith (.failed errno :: answers) errno :=
                    ⟨heintr, heagain, 0, answers, rfl⟩
                  exact Or.inr (Or.inr ⟨errno, hfailed, h.1.symm, h.2.symm⟩)

theorem sockRetry_returns (s : SockIo) (moved : Nat → SockIo) :
    ∀ answers : List IoAnswer, (∃ a ∈ answers, a ≠ .failed eintr) →
      ∃ p, sockRetry s moved answers = some p := by
  intro answers
  induction answers with
  | nil =>
      rintro ⟨a, ha, _⟩
      exact absurd ha List.not_mem_nil
  | cons a answers ih =>
      -- EINTR is the only answer after which the call is made again.
      rintro ⟨b, hb, hne⟩
      cases a with
      | moved n => exact ⟨_, rfl⟩
      | zero => exact ⟨_, rfl⟩
      | failed errno =>
          rw [sockRetry]
          split
          · next heintr =>
              -- The answer that ends the loop is not this one, so it stands in the rest.
              rcases List.mem_cons.mp hb with hfirst | hrest
              · rw [hfirst, heintr] at hne
                exact absurd rfl hne
              · exact ih ⟨b, hrest, hne⟩
          · split
            · exact ⟨_, rfl⟩
            · exact ⟨_, rfl⟩

/-- The number of bytes moved, as the `int` that is returned. -/
theorem moved_ret (nbyte n : Nat) (h : IoAnswer.Fits nbyte (.moved n)) :
    (Int32.ofNat n).toInt = n ∧ (n : Int) ≤ nbyte ∧ (n : Int) ≠ cmnError := by
  rcases (h : 0 < n ∧ n ≤ min nbyte (2 ^ 31 - 1)) with ⟨_, hle⟩
  refine ⟨Int32.toInt_ofNat_of_lt (by omega), by omega, ?_⟩
  rw [cmnError]
  omega

/-- A call moves bytes and returns their number, or it returns nothing
    positive and leaves everything but `err` as it was. -/
theorem sockRetry_exact (s s' : SockIo) (moved : Nat → SockIo) (nbyte : Nat)
    (answers : List IoAnswer) (ret : Int) (hfits : ∀ a ∈ answers, a.Fits nbyte)
    (h : sockRetry s moved answers = some (ret, s')) :
    (∃ n : Nat, ret = n ∧ (n : Int) ≤ nbyte ∧ (n : Int) ≠ cmnError ∧ s' = moved n) ∨
    (ret ≤ 0 ∧ ErrExact s.conn s'.conn answers ret ∧
      ∃ err, s' = { s with conn := { s.conn with err := err } }) := by
  rcases sockRetry_cases s s' moved ret answers h with ⟨n, hn, hret, hs'⟩ | ⟨hle, hne, hs'⟩ |
    ⟨errno, hfailed, hret, hs'⟩
  -- The kernel moves less than 2 ^ 31 bytes at a time, so the number survives the Int32.
  · rcases moved_ret nbyte n (hfits _ hn) with ⟨hn', hle, hne⟩
    exact Or.inl ⟨n, hret.trans hn', hle, hne, hs'⟩
  -- The connection is the one before, and so is its error.
  · rw [hs']
    exact Or.inr ⟨hle, ⟨fun _ => rfl, fun hc => absurd hc hne⟩, s.conn.err, rfl⟩
  · rw [hs']
    refine Or.inr ⟨?_, ⟨fun hc => absurd hret hc, fun _ => hfailed⟩, errno, rfl⟩
    rw [hret]
    decide

theorem sockRecv_exact (source : Nat → UInt8) (s s' : SockIo) (buf nbyte : Nat)
    (answers : List IoAnswer) (ret : Int) (hfits : ∀ a ∈ answers, a.Fits nbyte)
    (h : sockRecv source s buf answers = some (ret, s')) :
    RecvExact source s s' buf nbyte answers ret := by
  rcases sockRetry_exact s s' _ nbyte answers ret hfits h with ⟨n, hret, hle, hne, hs'⟩ |
    ⟨hle, herr, err, hs'⟩
  -- The bytes of this call are the next ones of the stream, in order.
  · rw [hret, hs']
    exact ⟨hle, fun i hi => blit_inside s.mem buf n i (fun i => source (s.taken + i)) hi,
      fun x hx => blit_outside s.mem buf n x (fun i => source (s.taken + i)) hx, rfl, rfl,
      ⟨fun _ => rfl, fun hc => absurd hc hne⟩, rfl, rfl⟩
  -- A negative answer counts as no bytes: nothing is taken from the stream.
  · have hzero : ret.toNat = 0 := by omega
    rw [hs'] at herr ⊢
    refine ⟨by omega, fun i hi => absurd hi (by omega), sameOutside_refl _ _ _, ?_, ?_, herr, rfl,
      rfl⟩
    · rw [hzero, Nat.add_zero]
    · rw [hzero]
      exact (UInt64.add_zero _).symm

theorem sockSend_exact (s s' : SockIo) (buf nbyte : Nat) (answers : List IoAnswer) (ret : Int)
    (hfits : ∀ a ∈ answers, a.Fits nbyte) (h : sockSend s buf answers = some (ret, s')) :
    SendExact s s' buf nbyte answers ret := by
  rcases sockRetry_exact s s' _ nbyte answers ret hfits h with ⟨n, hret, hle, hne, hs'⟩ |
    ⟨hle, herr, err, hs'⟩
  · rw [hret, hs']
    exact ⟨hle, rfl, rfl, ⟨fun _ => rfl, fun hc => absurd hc hne⟩, rfl, rfl, rfl⟩
  -- Nothing sent, so the stream of what was sent is as before.
  · have hzero : ret.toNat = 0 := by omega
    rw [hs'] at herr ⊢
    refine ⟨by omega, ?_, ?_, herr, rfl, rfl, rfl⟩
    · rw [hzero]
      exact (List.append_nil _).symm
    · rw [hzero]
      exact (UInt64.add_zero _).symm

theorem sockCall_exact (source : Nat → UInt8) (r : SockRun) (call : SockCall) (r' : SockRun)
    (h : sockCall source r call = some r') : CallExact source r call r' := by
  cases call with
  | recv buf nbyte answers =>
      rw [sockCall] at h
      split at h
      -- The counters and the list of answers move by the same call.
      · next hproper =>
          rcases Option.map_eq_some_iff.mp h with ⟨p, hp, hr'⟩
          rw [← hr']
          exact ⟨p.1, rfl, rfl, sockRecv_exact source r.io p.2 buf nbyte answers p.1 hproper.2 hp⟩
      · exact absurd h.symm (Option.some_ne_none _)
  | send buf nbyte answers =>
      rw [sockCall] at h
      split at h
      · next hproper =>
          rcases Option.map_eq_some_iff.mp h with ⟨p, hp, hr'⟩
          rw [← hr']
          exact ⟨p.1, rfl, rfl, sockSend_exact r.io p.2 buf nbyte answers p.1 hproper.2 hp⟩
      · exact absurd h.symm (Option.some_ne_none _)
  -- A step of the program writes its own memory and nothing of the connection's.
  | program mem => exact (Option.some.inj h).symm

/-- A call with something to do, and a kernel that does not interrupt it for
    ever. -/
def SockCall.Proper : SockCall → Prop
  | .recv _ nbyte answers => 0 < nbyte ∧ (∀ a ∈ answers, a.Fits nbyte) ∧
      ∃ a ∈ answers, a ≠ .failed eintr
  | .send _ nbyte answers => 0 < nbyte ∧ (∀ a ∈ answers, a.Fits nbyte) ∧
      ∃ a ∈ answers, a ≠ .failed eintr
  | .program _ => True

theorem sockCall_returns (source : Nat → UInt8) (r : SockRun) (call : SockCall)
    (h : call.Proper) : ∃ r', sockCall source r call = some r' := by
  cases call with
  | recv buf nbyte answers =>
      rcases h with ⟨hpos, hfits, hanswer⟩
      rcases sockRetry_returns r.io _ answers hanswer with ⟨p, hp⟩
      exact ⟨_, by rw [sockCall, if_pos ⟨hpos, hfits⟩, sockRecv, hp, Option.map_some]⟩
  | send buf nbyte answers =>
      rcases h with ⟨hpos, hfits, hanswer⟩
      rcases sockRetry_returns r.io _ answers hanswer with ⟨p, hp⟩
      exact ⟨_, by rw [sockCall, if_pos ⟨hpos, hfits⟩, sockSend, hp, Option.map_some]⟩
  | program mem => exact ⟨_, rfl⟩

/-- The counters and the results so far. -/
structure SockCounts (r : SockRun) : Prop where
  recv : r.io.conn.recvNbyte = UInt64.ofNat (posSum r.recvRets)
  send : r.io.conn.sendNbyte = UInt64.ofNat (posSum r.sendRets)
  taken : r.io.taken = posSum r.recvRets

theorem sockCall_counts (source : Nat → UInt8) (r : SockRun) (call : SockCall) (r' : SockRun)
    (h : SockCounts r) (hstep : sockCall source r call = some r') : SockCounts r' := by
  have hexact := sockCall_exact source r call r' hstep
  -- Each call adds what it returned to its own counter and leaves the other one.
  cases call with
  | recv buf nbyte answers =>
      rcases hexact with ⟨ret, hrecv, hsend, hcall⟩
      refine ⟨?_, ?_, ?_⟩
      · rw [hcall.counted, h.recv, hrecv, posSum_append, UInt64.ofNat_add]
      · rw [hcall.other.2, h.send, hsend]
      · rw [hcall.taken, h.taken, hrecv, posSum_append]
  | send buf nbyte answers =>
      rcases hexact with ⟨ret, hsend, hrecv, hcall⟩
      refine ⟨?_, ?_, ?_⟩
      · rw [hcall.other.2.2, h.recv, hrecv]
      · rw [hcall.counted, h.send, hsend, posSum_append, UInt64.ofNat_add]
      · rw [hcall.other.2.1, h.taken, hrecv]
  | program mem =>
      rw [(hexact : r' = _)]
      exact ⟨h.recv, h.send, h.taken⟩

/-- What is to be sent is the stream from where the last positive result has
    ended. -/
def Advances (stream : Nat → UInt8) (r : SockRun) : SockCall → Prop
  | .send buf nbyte _ => ∀ i, i < nbyte → r.io.mem (buf + i) = stream (posSum r.sendRets + i)
  | .recv _ _ _ => True
  | .program _ => True

instance (stream : Nat → UInt8) (r : SockRun) : (call : SockCall) →
    Decidable (Advances stream r call)
  | .send buf nbyte _ => inferInstanceAs
      (Decidable (∀ i, i < nbyte → r.io.mem (buf + i) = stream (posSum r.sendRets + i)))
  | .recv _ _ _ => inferInstanceAs (Decidable True)
  | .program _ => inferInstanceAs (Decidable True)

/-- The stream as far as it has been sent. -/
def SentPrefix (stream : Nat → UInt8) (r : SockRun) : Prop :=
  r.io.sent = slice stream 0 (posSum r.sendRets)

theorem sockCall_sent (source stream : Nat → UInt8) (r : SockRun) (call : SockCall) (r' : SockRun)
    (h : SentPrefix stream r) (hadvances : Advances stream r call)
    (hstep : sockCall source r call = some r') : SentPrefix stream r' := by
  have hexact := sockCall_exact source r call r' hstep
  cases call with
  | recv buf nbyte answers =>
      rcases hexact with ⟨ret, _, hsend, hcall⟩
      rw [SentPrefix, hcall.other.1, hsend]
      exact h
  | send buf nbyte answers =>
      rcases hexact with ⟨ret, hsend, _, hcall⟩
      have hle := hcall.le
      -- The bytes sent are those of the stream behind what has been sent.
      have hnext : slice r.io.mem buf ret.toNat
          = slice stream (0 + posSum r.sendRets) ret.toNat := by
        refine slice_congr _ _ _ _ _ (fun i hi => ?_)
        rw [Nat.zero_add]
        exact hadvances i (by omega)
      rw [SentPrefix, hcall.sent, hsend, posSum_append, slice_append, hnext,
        (h : r.io.sent = slice stream 0 (posSum r.sendRets))]
  | program mem =>
      rw [(hexact : r' = _)]
      exact h

/-- Every call of a run is exact, and returns if it is not interrupted for
    ever. The counters are the sums of the positive results, as far as a
    `size_t` goes, and a caller that goes on where its last result ended has
    sent its stream as far as those add up. -/
theorem sock_bytes_exact (source : Nat → UInt8) (mem : Mem) (calls : List SockCall) (r : SockRun)
    (hrun : steps (sockCall source) (sockRun mem) calls = some r) :
    (∀ t call t', sockCall source t call = some t' → CallExact source t call t') ∧
    (∀ t call, SockCall.Proper call → ∃ t', sockCall source t call = some t') ∧
    r.io.conn.recvNbyte.toNat = posSum r.recvRets % 2 ^ 64 ∧
    r.io.conn.sendNbyte.toNat = posSum r.sendRets % 2 ^ 64 ∧
    r.io.taken = posSum r.recvRets ∧
    ∀ stream, AlongSteps (sockCall source) (Advances stream) (sockRun mem) calls →
      r.io.sent = slice stream 0 (posSum r.sendRets) := by
  -- The counters hold what was returned so far, an invariant of the run.
  have hcounts := steps_invariant_along (sockCall source) (fun _ => True) SockCounts
    (fun t call t' h _ => sockCall_counts source t call t' h) calls (sockRun mem) r
    ⟨rfl, rfl, rfl⟩ (fun _ _ => trivial) hrun
  refine ⟨sockCall_exact source, sockCall_returns source, ?_, ?_, hcounts.taken,
    fun stream hadvances => ?_⟩
  · rw [hcounts.recv, UInt64.toNat_ofNat']
  · rw [hcounts.send, UInt64.toNat_ofNat']
  -- The stream is only given for the runs that advance along it, so the last part is along the run.
  · exact throughout_of_along (sockCall source) (Advances stream) (SentPrefix stream)
      (SentPrefix stream) (fun _ h => h)
      (fun t call t' h hadv => sockCall_sent source stream t call t' h hadv) calls (sockRun mem) rfl
      hadvances calls r (List.prefix_refl calls) hrun

/-- Three bytes that are sent in two pieces, with an interruption before the
    second and a refusal between them. -/
theorem sock_two_pieces :
    ∃ r, steps (sockCall (fun _ => 0)) (sockRun (fun x => UInt8.ofNat x))
        [.send 5 3 [.moved 1], .send 6 2 [.failed eagain],
          .send 6 2 [.failed eintr, .moved 2]] = some r ∧
      r.sendRets = [1, cmnEagain, 2] ∧ r.io.sent = [5, 6, 7] := by
  have hsent := (sock_bytes_exact (fun _ => 0) (fun x => UInt8.ofNat x)
    [.send 5 3 [.moved 1], .send 6 2 [.failed eagain], .send 6 2 [.failed eintr, .moved 2]]
    _ rfl).2.2.2.2.2 (fun i => UInt8.ofNat (5 + i)) (by decide)
  exact ⟨_, rfl, by decide, hsent.trans (by decide)⟩

/-- A call that sends `n` bytes, made over and over again. -/
theorem sock_sends (source : Nat → UInt8) (n : Nat) (h : IoAnswer.Fits n (.moved n)) :
    ∀ (k : Nat) (r : SockRun), ∃ r',
      steps (sockCall source) r (List.replicate k (.send 0 n [.moved n])) = some r' ∧
        r'.io.conn.sendNbyte = r.io.conn.sendNbyte + UInt64.ofNat (k * n) ∧
        posSum r'.sendRets = posSum r.sendRets + k * n := by
  intro k
  induction k with
  | zero =>
      intro r
      rw [Nat.zero_mul]
      exact ⟨r, rfl, (UInt64.add_zero _).symm, rfl⟩
  | succ k ih =>
      intro r
      have hfits : 0 < n ∧ ∀ a ∈ [IoAnswer.moved n], a.Fits n := by
        refine ⟨h.1, fun a ha => ?_⟩
        rw [List.mem_singleton.mp ha]
        exact h
      have hstep : ∃ t, sockCall source r (.send 0 n [.moved n]) = some t ∧
          t.io.conn.sendNbyte = r.io.conn.sendNbyte + UInt64.ofNat n ∧
          t.sendRets = r.sendRets ++ [(n : Int)] := by
        refine ⟨_, (if_pos hfits).trans rfl, rfl, ?_⟩
        simp only [(moved_ret n n h).1]
      -- One call, and the rest from the state it leaves.
      rcases hstep with ⟨t, hstep, hfirst, hrets⟩
      rcases ih t with ⟨r', hrun, hcount, hsum⟩
      refine ⟨r', ?_, ?_, ?_⟩
      · rw [List.replicate_succ, steps, hstep, Option.bind_some]
        exact hrun
      · rw [hcount, hfirst, Nat.succ_mul, Nat.add_comm (k * n), UInt64.ofNat_add, UInt64.add_assoc]
      · rw [hsum, hrets, posSum_append, Int.toNat_natCast, Nat.succ_mul]
        omega

/-- After sixteen exbibytes the counter is zero again. -/
theorem sock_count_wraps :
    ∃ r, steps (sockCall (fun _ => 0)) (sockRun (fun _ => 0))
        (List.replicate (2 ^ 34) (.send 0 (2 ^ 30) [.moved (2 ^ 30)])) = some r ∧
      r.io.conn.sendNbyte.toNat ≠ posSum r.sendRets := by
  rcases sock_sends (fun _ => 0) (2 ^ 30) (by decide) (2 ^ 34) (sockRun (fun _ => 0)) with
    ⟨r, hrun, hcount, hsum⟩
  refine ⟨r, hrun, ?_⟩
  rw [hcount, hsum]
  decide

end Aircmn
