import DnsmasqRs.Dhcp.Pool
import Mathlib.Data.List.Induction

/-!
# The ping limiter

Results of pings that were not answered are kept for thirty seconds, and no ping is sent while six
of them are fresh.  The fresh results are the unanswered pings of the last thirty seconds
(`fresh_eq_unanswered`), so there are never more than six of those in thirty seconds
(`unanswered_le`).  But a ping that is answered leaves no trace, and nothing limits these.

So there are at most six pings in thirty seconds if no ping of that time is answered, or if at most
six calls of that time may ping at all (`limited_of_rarely`).
-/

namespace DnsmasqRs.Dhcp

open List

/-- The arguments of one `check`. -/
structure PingCall where
  now : SystemTime
  addr : Ipv4Addr
  hash : UInt32
  noPing : Bool
  loopback : Bool
  probe : Ipv4Addr → Bool

namespace PingCall

variable (call : PingCall) (cache : PingCache)

/-- `PingCache::check` with the arguments of the call, and the addresses it asks `in_use` for. -/
def check : (Option UInt32 × PingCache) × List Ipv4Addr :=
  Id.run <| StateT.run (cache.check call.now call.addr call.hash call.noPing call.loopback
    fun addr => modifyGet fun asked => (call.probe addr, asked ++ [addr])) []

/-- What `in_use` says. -/
def inUse : Bool := call.probe call.addr

/-- The arguments allow a ping. -/
def mayPing : Bool := !call.noPing && !call.loopback

/-- The cache allows a ping: it has no fresh result for the address, and fewer than six in all. -/
def passes : Bool :=
  (cache.all fun r => r.isStale call.now || r.addr != call.addr)
    && cache.countP (!·.isStale call.now) < 6

/-- The cache once a ping was not answered: its result replaces a stale one, or is added if there is
none. -/
def record : PingCache :=
  match cache.reverse.findIdx? (·.isStale call.now) with
  | some i => cache.set (cache.length - 1 - i) ⟨call.addr, call.now, call.hash⟩
  | none => cache ++ [⟨call.addr, call.now, call.hash⟩]

/-- **What `check` does**: it asks once where arguments and cache allow it, and records what was not
answered. -/
theorem check_cases :
    ((call.mayPing && call.passes cache) = false
        ∧ (call.check cache).2 = [] ∧ (call.check cache).1.2 = cache)
      ∨ ((call.mayPing && call.passes cache) = true ∧ (call.check cache).2 = [call.addr]
        ∧ (call.check cache).1.2 = if call.inUse then cache else call.record cache) := by
  unfold mayPing passes inUse record check PingCache.check
  split
  · next r hr =>
    have hfound := find?_some hr
    have hmem := mem_of_find?_eq_some hr
    refine Or.inl ⟨?_, rfl, rfl⟩
    simp only [Bool.and_eq_false_iff, all_eq_false]
    exact Or.inr (Or.inl ⟨r, hmem, by simpa using hfound⟩)
  · next hnone =>
    have hall : (cache.all fun r => r.isStale call.now || r.addr != call.addr) := by
      simpa [or_iff_not_imp_left] using hnone
    split
    · next hstop =>
      refine Or.inl ⟨?_, rfl, rfl⟩
      simp only [Bool.or_eq_true, decide_eq_true_eq] at hstop
      rcases hstop with (hfull | hoff) | hoff
      · simp [Nat.not_lt.mpr hfull]
      · simp [hoff]
      · simp [hoff]
    · next hgo =>
      simp only [Bool.or_eq_true, decide_eq_true_eq, not_or, Nat.not_le, Bool.not_eq_true] at hgo
      refine Or.inr ⟨by simp [hall, hgo.1.1, hgo.1.2, hgo.2], ?_⟩
      cases hans : call.probe call.addr with
      | true => simp [hans]
      | false => cases cache.reverse.findIdx? (·.isStale call.now) <;> simp [hans]

theorem length_check (hlen : cache.length ≤ 6) : (call.check cache).1.2.length ≤ 6 := by
  rcases call.check_cases cache with ⟨-, -, hcache⟩ | ⟨hping, -, hcache⟩
  · rw [hcache]
    exact hlen
  · rw [hcache]
    split
    · exact hlen
    · unfold record
      split
      · rw [length_set]
        exact hlen
      · next hnone =>
        -- all results are fresh, and fewer than six are
        have hfresh : cache.countP (!·.isStale call.now) = cache.length := by
          rw [countP_eq_length]
          intro r hr
          rw [findIdx?_eq_none_iff.mp hnone r (mem_reverse.mpr hr), Bool.not_false]
        simp only [passes, Bool.and_eq_true, decide_eq_true_eq, hfresh] at hping
        rw [length_append, length_singleton]
        omega

/-- The results that are fresh later on are those of before and the one recorded, if it is fresh by
then. -/
theorem countP_record (hle : call.now ≤ later) :
    (call.record cache).countP (!·.isStale later) = cache.countP (!·.isStale later) +
      if later ≤ call.now + fromSecs 30 then 1 else 0 := by
  have hresult : PingResult.isStale later ⟨call.addr, call.now, call.hash⟩ = false ↔
      later ≤ call.now + fromSecs 30 := by
    rw [PingResult.isStale, decide_eq_false_iff_not, Nat.not_lt, Nat.sub_le_iff_le_add']
  unfold record
  split
  · next i hi =>
    obtain ⟨hlt, hstale, -⟩ := findIdx?_eq_some_iff_getElem.mp hi
    rw [getElem_reverse] at hstale
    rw [length_reverse] at hlt
    have hlater : cache[cache.length - 1 - i].isStale later := by
      simp only [PingResult.isStale, decide_eq_true_eq] at hstale ⊢
      exact hstale.trans_le (Nat.sub_le_sub_right hle _)
    rw [countP_set (by omega), hlater]
    simp [hresult]
  · simp [countP_append, countP_cons, hresult]

end PingCall

/-- The cache, and the calls so far, each as often as it asked `in_use`. -/
structure Pinging where
  cache : PingCache
  sent : List PingCall

namespace Pinging

def step (s : Pinging) (call : PingCall) : Pinging :=
  let ((_, cache), asked) := call.check s.cache
  ⟨cache, asked.map (fun _ => call) ++ s.sent⟩

/-- The calls one after the other, from `PingCache::new`. -/
def run (calls : List PingCall) : Pinging := calls.foldl step ⟨[], []⟩

/-- The time is in the thirty seconds from `t` on. -/
def inWindow (t now : SystemTime) : Bool := t ≤ now && now ≤ t + fromSecs 30

/-- The pings in the thirty seconds from `t` on. -/
def within (t : SystemTime) (sent : List PingCall) : ℕ := sent.countP (inWindow t ·.now)

/-- The pings so far that were not answered. -/
def unanswered (s : Pinging) : List PingCall := s.sent.filter (!·.inUse)

theorem run_concat : run (calls ++ [call]) = (run calls).step call :=
  foldl_concat ..

theorem length_cache_run : (run calls).cache.length ≤ 6 := by
  induction calls using reverseRecOn with
  | nil => exact Nat.zero_le 6
  | append_singleton calls call ih =>
    rw [run_concat]
    exact call.length_check _ ih

/-- **One call** sends no ping and leaves everything as it is, or it sends the one ping that
arguments and cache allow. -/
theorem step_cases (s : Pinging) (call : PingCall) :
    s.step call = s ∨ (call.mayPing = true ∧ call.passes s.cache = true ∧ s.step call
      = ⟨if call.inUse then s.cache else call.record s.cache, call :: s.sent⟩) := by
  unfold step
  rcases call.check_cases s.cache with ⟨-, hasked, hcache⟩ | ⟨hping, hasked, hcache⟩
  · left
    dsimp only
    rw [hasked, hcache]
    rfl
  · right
    dsimp only
    rw [hasked, hcache]
    exact ⟨(Bool.and_eq_true_iff.mp hping).1, (Bool.and_eq_true_iff.mp hping).2, rfl⟩

/-- A ping was sent by a call that arguments and cache allowed it. -/
theorem exists_passes_of_mem_sent (hc : c ∈ (run calls).sent) :
    ∃ earlier, earlier ++ [c] <+: calls ∧ c.mayPing = true
      ∧ c.passes (run earlier).cache = true := by
  induction calls using reverseRecOn with
  | nil => cases hc
  | append_singleton calls call ih =>
    have hbefore (h : c ∈ (run calls).sent) : ∃ earlier, earlier ++ [c] <+: calls ++ [call]
        ∧ c.mayPing = true ∧ c.passes (run earlier).cache = true := by
      obtain ⟨earlier, hpre, hping⟩ := ih h
      exact ⟨earlier, hpre.trans (prefix_append _ _), hping⟩
    rw [run_concat] at hc
    rcases (run calls).step_cases call with heq | ⟨hmay, hpass, heq⟩
    · rw [heq] at hc
      exact hbefore hc
    · rw [heq] at hc
      rcases mem_cons.mp hc with rfl | hc
      · exact ⟨calls, prefix_refl _, hmay, hpass⟩
      · exact hbefore hc

/-- No more pings are sent than there are calls that may ping. -/
theorem countP_sent_le (p : PingCall → Bool) :
    (run calls).sent.countP p ≤ calls.countP fun c => c.mayPing && p c := by
  induction calls using reverseRecOn with
  | nil => exact Nat.le_refl 0
  | append_singleton calls call ih =>
    rw [run_concat, countP_append]
    rcases (run calls).step_cases call with heq | ⟨hmay, -, heq⟩
    · rw [heq]
      exact ih.trans (Nat.le_add_right _ _)
    · rw [heq, countP_cons, countP_singleton, hmay, Bool.true_and]
      exact Nat.add_le_add_right ih _

/-- **The fresh results are the unanswered pings of the last thirty seconds.** -/
theorem fresh_eq_unanswered (hmono : calls.Pairwise (·.now ≤ ·.now))
    (hnow : ∀ c ∈ calls, c.now ≤ now) : (run calls).cache.countP (!·.isStale now) =
      (run calls).unanswered.countP fun c => now ≤ c.now + fromSecs 30 := by
  induction calls using reverseRecOn with
  | nil => rfl
  | append_singleton calls call ih =>
    have hfresh := ih (pairwise_append.mp hmono).1 fun c hc => hnow c (mem_append_left _ hc)
    rw [run_concat]
    rcases (run calls).step_cases call with heq | ⟨-, -, heq⟩
    · rw [heq, hfresh]
    · unfold unanswered at hfresh ⊢
      rw [heq]
      cases hans : call.inUse with
      | true => simpa [hans] using hfresh
      | false => simp [hans, call.countP_record _ (hnow call (by simp)), hfresh, countP_cons]

/-- With one more ping the limit holds in every window if it did before and holds in the window that
ends with the ping. -/
theorem within_cons_le {sent : List PingCall} {call : PingCall} (hbefore : ∀ t, within t sent ≤ 6)
    (hlast : sent.countP (fun c => call.now ≤ c.now + fromSecs 30) < 6) (t : SystemTime) :
    within t (call :: sent) ≤ 6 := by
  have ht := hbefore t
  unfold within inWindow at ht ⊢
  rw [countP_cons]
  split
  · next hin =>
    refine (countP_mono_left fun c _ hle => ?_).trans_lt hlast
    simp only [decide_eq_true_eq, Bool.and_eq_true] at hin hle ⊢
    exact hin.2.trans (Nat.add_le_add_right hle.1 _)
  · exact ht

/-- **Unanswered pings are limited**, whatever the calls. -/
theorem unanswered_le (hmono : calls.Pairwise (·.now ≤ ·.now)) (t : SystemTime) :
    within t (run calls).unanswered ≤ 6 := by
  induction calls using reverseRecOn generalizing t with
  | nil => exact Nat.zero_le 6
  | append_singleton calls call ih =>
    obtain ⟨hcalls, -, hlast⟩ := pairwise_append.mp hmono
    rw [run_concat]
    rcases (run calls).step_cases call with heq | ⟨-, hpass, heq⟩
    · rw [heq]
      exact ih hcalls t
    · have hroom : (run calls).cache.countP (!·.isStale call.now) < 6 := by
        unfold PingCall.passes at hpass
        simpa using (Bool.and_eq_true_iff.mp hpass).2
      rw [fresh_eq_unanswered hcalls fun c hc => hlast c hc call mem_cons_self] at hroom
      unfold unanswered at ih hroom ⊢
      rw [heq]
      cases hans : call.inUse with
      | true => simpa [hans] using ih hcalls t
      | false =>
        simp only [hans, filter_cons, Bool.not_false, if_true]
        exact within_cons_le (ih hcalls) hroom t

/-- In the thirty seconds from `t` on there is a call that is allowed to ping, and is answered. -/
def Answers (calls : List PingCall) (t : SystemTime) : Prop :=
  ∃ earlier call, earlier ++ [call] <+: calls ∧ inWindow t call.now ∧ call.mayPing
    ∧ call.passes (run earlier).cache ∧ call.inUse

/-- **The ping limiter.**  The cache never holds more than six results; and there are at most six
pings in any thirty seconds if in those in which a ping is answered at most six calls may ping. -/
theorem limited_of_rarely (calls : List PingCall) (hmono : calls.Pairwise (·.now ≤ ·.now))
    (hrarely : ∀ t, Answers calls t → calls.countP (fun c => c.mayPing && inWindow t c.now) ≤ 6) :
    (∀ n, (run (calls.take n)).cache.length ≤ 6) ∧ ∀ t, within t (run calls).sent ≤ 6 := by
  refine ⟨fun n => length_cache_run, fun t => ?_⟩
  by_cases hans : ∃ c ∈ (run calls).sent, inWindow t c.now ∧ c.inUse
  · obtain ⟨c, hc, hin, huse⟩ := hans
    obtain ⟨earlier, hpre, hmay, hpass⟩ := exists_passes_of_mem_sent hc
    exact (countP_sent_le _).trans (hrarely t ⟨earlier, c, hpre, hin, hmay, hpass, huse⟩)
  · -- without an answered ping all of them are among the unanswered ones
    have hbound := unanswered_le hmono t
    unfold within unanswered at hbound
    rw [countP_filter] at hbound
    refine (countP_mono_left fun c hc hin => ?_).trans hbound
    have huse : c.inUse = false := Bool.eq_false_iff.mpr fun huse => hans ⟨c, hc, hin, huse⟩
    rw [hin, huse]
    rfl

/-- A call at time 0 for the address of the given number, that is answered or not. -/
def sampleCall (answer : Bool) (last : UInt32) : PingCall :=
  ⟨0, ofU32 last, 1, false, false, fun _ => answer⟩

/-- Five pings that are not answered and one that is. -/
theorem limited_six :
    within 0 (run (sampleCall true 6 :: [1, 2, 3, 4, 5].map (sampleCall false))).sent = 6
    ∧ within 0 (run (sampleCall true 6 :: [1, 2, 3, 4, 5].map (sampleCall false))).sent ≤ 6 :=
  ⟨by decide +kernel, (limited_of_rarely _ (by decide) fun _ _ => countP_le_length).2 0⟩

/-- Seven pings at one moment, all answered. -/
theorem unlimited_of_answered : ¬ within 0 (run (replicate 7 (sampleCall true 0))).sent ≤ 6 := by
  decide +kernel

end Pinging

end DnsmasqRs.Dhcp
