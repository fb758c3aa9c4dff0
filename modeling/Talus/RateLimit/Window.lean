/-
  Talus.RateLimit.Window
  **BOTH RATE LIMITERS ARE EXACT SLIDING WINDOWS.**

  `RateLimiter.allow` and `IPRateLimiter.Allow` keep, per identity, the times
  of the admitted calls that may still count; the second also drops whole keys
  from time to time.  The specification keeps everything: its state is the log
  of all calls with their decisions, and a call is admitted when fewer than
  the limit of its own admitted calls lie in the window.

    • `Retains`: what a limiter stores of a log,
    • `serve_rateLimiter`, `serve_ipRateLimiter`: both limiters decide as the
      log does,
    • `sliding_window_exact`: exactness, independence of the other identities
      and of the sweeps, and what a sweep removes.
-/
import Mathlib.Data.List.Sort

namespace Talus.RateLimit

open List Option Function

variable {K σ : Type}

/-! ## §1. The limiters.

Times are nanoseconds since Go's zero time. -/

/-- The part the two limiters share: the times after the cutoff, and the call's
own if they leave room for it. -/
def admitAt (window maxReqs : Int) (now : Int) (times : List Int) : Bool × List Int :=
  let valid := times.filter (now - window < ·)
  if maxReqs ≤ valid.length then (false, valid) else (true, valid ++ [now])

structure RateLimiter (K : Type) where
  window : Int
  maxReqs : Int
  requests : K → Option (List Int)

/-- `NewRateLimiter`. -/
def RateLimiter.new (window maxReqs : Int) : RateLimiter K := ⟨window, maxReqs, fun _ => none⟩

/-- `RateLimiter.allow`. -/
def RateLimiter.allow [DecidableEq K] (rl : RateLimiter K) (identity : K) (now : Int) : Bool × RateLimiter K :=
  let r := admitAt rl.window rl.maxReqs now ((rl.requests identity).getD [])
  (r.1, { rl with requests := Function.update rl.requests identity (some r.2) })

structure IPRateLimiter (K : Type) where
  /-- `runtimeConfig.Current().LoginRateLimit`, once wired -/
  runtimeConfig : Option Int
  window : Int
  maxReqs : Int
  requests : K → Option (List Int)
  trustProxy : Bool
  lastSweep : Int

namespace IPRateLimiter

/-- `NewIPRateLimiter`, with the runtime configuration wired or not. -/
def new (window maxReqs : Int) (trustProxy : Bool) (runtimeConfig : Option Int) :
    IPRateLimiter K :=
  ⟨runtimeConfig, window, maxReqs, fun _ => none, trustProxy, 0⟩

/-- The eviction loop: keys whose list is empty or ends before the cutoff go. -/
def sweep (rl : IPRateLimiter K) (now : Int) : IPRateLimiter K :=
  if rl.window ≤ now - rl.lastSweep then
    { rl with
      requests := fun k => (rl.requests k).bind fun ts => ts.getLast?.bind fun t =>
        if t < now - rl.window then none else some ts
      lastSweep := now }
  else rl

/-- `IPRateLimiter.Allow`. -/
def allow [DecidableEq K] (rl : IPRateLimiter K) (ip : K) (now : Int) : Bool × IPRateLimiter K :=
  let rl := rl.sweep now
  let r := admitAt rl.window (rl.runtimeConfig.getD rl.maxReqs) now ((rl.requests ip).getD [])
  (r.1, { rl with requests := Function.update rl.requests ip (some r.2) })

/-- The limit in force becomes `n`. -/
def setLimit (rl : IPRateLimiter K) (n : Int) : IPRateLimiter K :=
  match rl.runtimeConfig with
  | some _ => { rl with runtimeConfig := some n }
  | none => { rl with maxReqs := n }

end IPRateLimiter

/-! ## §2. Calls, and the limiter that remembers everything. -/

/-- A call, with the limit in force when it is made. -/
structure Call (K : Type) where
  identity : K
  now : Int
  limit : Int
  deriving DecidableEq

abbrev Log (K : Type) := List (Call K × Bool)

/-- Calls one after the other, with the decisions. -/
def serve (allow : σ → Call K → Bool × σ) : σ → List (Call K) → Log K × σ
  | s, [] => ([], s)
  | s, c :: cs =>
    let r := allow s c
    let rest := serve allow r.2 cs
    ((c, r.1) :: rest.1, rest.2)

variable [DecidableEq K]

def RateLimiter.call (rl : RateLimiter K) (c : Call K) : Bool × RateLimiter K :=
  { rl with maxReqs := c.limit }.allow c.identity c.now

def IPRateLimiter.call (rl : IPRateLimiter K) (c : Call K) : Bool × IPRateLimiter K :=
  (rl.setLimit c.limit).allow c.identity c.now

/-- The times of the admitted calls of `x`. -/
def admitted (log : Log K) (x : K) : List Int :=
  (log.filter fun e => e.1.identity = x && e.2).map (·.1.now)

/-- `c` is admitted if fewer than the limit of its identity's earlier calls
were admitted in `(c.now - window, c.now]`. -/
def fits (window : Int) (log : Log K) (c : Call K) : Bool :=
  decide ((((admitted log c.identity).filter fun t =>
    c.now - window < t && t ≤ c.now).length : Int) < c.limit)

/-- The specification: a limiter that keeps the whole log. -/
def decideAll (window : Int) (log : Log K) (c : Call K) : Bool × Log K :=
  (fits window log c, log ++ [(c, fits window log c)])

/-- Calls at nondecreasing times, none before `last`. -/
def InOrder (last : Int) (cs : List (Call K)) : Prop :=
  (last :: cs.map Call.now).Pairwise (· ≤ ·)

variable {cs : List (Call K)}

omit [DecidableEq K] in
theorem InOrder.cons {last : Int} {c : Call K} (h : InOrder last (c :: cs)) :
    last ≤ c.now ∧ InOrder c.now cs := by
  unfold InOrder at h
  rw [map_cons, pairwise_cons] at h
  exact ⟨h.1 _ mem_cons_self, h.2⟩

variable {window : Int} {log : Log K} {last : Int} {stored : K → List Int} {c : Call K}

theorem admitted_append (log log' : Log K) (x : K) :
    admitted (log ++ log') x = admitted log x ++ admitted log' x := by
  unfold admitted
  rw [filter_append, map_append]

theorem admitted_singleton (c : Call K) (ok : Bool) (x : K) :
    admitted [(c, ok)] x = if c.identity = x ∧ ok = true then [c.now] else [] := by
  unfold admitted
  by_cases h : c.identity = x <;> cases ok <;> simp [h]

/-! ## §3. What a limiter stores of a log. -/

/-- **The stored times against the log**: some of the admitted ones, in order,
and all of those that any later call can count. -/
structure Retains (window : Int) (log : Log K) (last : Int) (stored : K → List Int) : Prop where
  past : ∀ e ∈ log, e.1.now ≤ last
  sorted : ∀ x, (admitted log x).Pairwise (· ≤ ·)
  sub : ∀ x, (stored x).Sublist (admitted log x)
  recent : ∀ x cutoff, last - window ≤ cutoff →
    (stored x).filter (cutoff < ·) = (admitted log x).filter (cutoff < ·)

namespace Retains

theorem admitted_le (h : Retains window log last stored) {x : K} {t : Int}
    (ht : t ∈ admitted log x) : t ≤ last := by
  obtain ⟨e, he, rfl⟩ := mem_map.1 ht
  exact h.past e (mem_filter.1 he).1

/-- Time passes. -/
theorem later (h : Retains window log last stored) {now : Int} (hle : last ≤ now) :
    Retains window log now stored where
  past := fun e he => Int.le_trans (h.past e he) hle
  __ := h
  recent := fun x cutoff hcut => h.recent x cutoff (by omega)

/-- **Decisions agree** with those taken from the log. -/
theorem admit_eq (h : Retains window log c.now stored) :
    (admitAt window c.limit c.now (stored c.identity)).1 = fits window log c := by
  have hvalid : (stored c.identity).filter (c.now - window < ·) =
      (admitted log c.identity).filter fun t => c.now - window < t && t ≤ c.now := by
    rw [h.recent c.identity _ (Int.le_refl _)]
    refine filter_congr fun t ht => ?_
    have hle := h.admitted_le ht
    simp [hle]
  unfold admitAt fits
  rw [← hvalid]
  by_cases hroom : c.limit ≤ (((stored c.identity).filter (c.now - window < ·)).length : Int)
  · simp [hroom]
  · simp [hroom, Int.not_le.1 hroom]

/-- **A call is recorded**: the caller's list is what `admitAt` returns. -/
theorem record (h : Retains window log c.now stored) {stored' : K → List Int}
    (hself : stored' c.identity = (admitAt window c.limit c.now (stored c.identity)).2)
    (hother : ∀ x, x ≠ c.identity → stored' x = stored x) :
    Retains window (log ++ [(c, fits window log c)]) c.now stored' := by
  have hnew : ∀ x, x ≠ c.identity →
      admitted (log ++ [(c, fits window log c)]) x = admitted log x := by
    intro x hx
    rw [admitted_append, admitted_singleton, if_neg (fun hc => hx hc.1.symm), append_nil]
  -- the caller's list is its valid part, with the call's own time if it is admitted
  have hlist : stored' c.identity = (stored c.identity).filter (c.now - window < ·) ++
      admitted [(c, fits window log c)] c.identity := by
    rw [hself, admitted_singleton, ← h.admit_eq]
    unfold admitAt
    by_cases hroom : c.limit ≤ (((stored c.identity).filter (c.now - window < ·)).length : Int)
    · simp [hroom]
    · simp [hroom]
  refine ⟨fun e he => ?_, fun x => ?_, fun x => ?_, fun x cutoff hcut => ?_⟩
  · rcases mem_append.1 he with he | he
    · exact h.past e he
    · rw [mem_singleton.1 he]
  · rw [admitted_append, pairwise_append]
    refine ⟨h.sorted x, ?_, fun t ht u hu => ?_⟩
    · rw [admitted_singleton]
      split <;> simp
    · have hu' : u = c.now := by
        rw [admitted_singleton] at hu
        split at hu <;> simp_all
      rw [hu']
      exact h.admitted_le ht
  · by_cases hx : x = c.identity
    · rw [hx, hlist, admitted_append]
      exact (filter_sublist.trans (h.sub _)).append (List.Sublist.refl _)
    · rw [hother x hx, hnew x hx]
      exact h.sub x
  · by_cases hx : x = c.identity
    · rw [hx, hlist, admitted_append, filter_append, filter_append,
        ← h.recent _ cutoff hcut, List.filter_filter]
      congr 1
      refine filter_congr fun t _ => ?_
      by_cases ht : cutoff < t
      · simp [ht, Int.lt_of_le_of_lt hcut ht]
      · simp [ht]
    · rw [hother x hx, hnew x hx]
      exact h.recent x cutoff hcut

/-- A key whose newest time is before the cutoff, or that has none, may go. -/
theorem evict (h : Retains window log last stored) {stored' : K → List Int}
    (hkept : ∀ x, stored' x = stored x ∨
      (stored' x = [] ∧ ∀ t ∈ (stored x).getLast?, t < last - window)) :
    Retains window log last stored' := by
  refine ⟨h.past, h.sorted, fun x => ?_, fun x cutoff hcut => ?_⟩
  · rcases hkept x with hsame | ⟨hnil, -⟩
    · rw [hsame]
      exact h.sub x
    · rw [hnil]
      exact nil_sublist _
  · rcases hkept x with hsame | ⟨hnil, hold⟩
    · rw [hsame]
      exact h.recent x cutoff hcut
    · rw [hnil, ← h.recent x cutoff hcut, filter_nil, eq_comm, filter_eq_nil_iff]
      intro t ht
      -- the list is in order, so its last time bounds it
      obtain ⟨u, hu⟩ := isSome_iff_exists.1 (getLast?_isSome.2 (ne_nil_of_mem ht))
      obtain ⟨front, hfront⟩ := getLast?_eq_some_iff.1 hu
      have hsorted := (h.sorted x).sublist (h.sub x)
      rw [hfront] at hsorted ht
      have htu : t ≤ u := by
        rcases mem_append.1 ht with ht | ht
        · exact (pairwise_append.1 hsorted).2.2 t ht u (mem_singleton_self _)
        · exact Int.le_of_eq (mem_singleton.1 ht)
      have hlt := hold u hu
      simp only [decide_eq_true_eq]
      omega

end Retains

/-! ## §4. Both limiters decide as the log does. -/

/-- **Refinement**: a limiter that keeps `Retains` at each call decides as
the log does. -/
theorem serve_decideAll {allow : σ → Call K → Bool × σ} {stored : σ → K → List Int}
    (good : σ → Prop)
    (hstep : ∀ s c log, good s → Retains window log c.now (stored s) →
      good (allow s c).2 ∧ (allow s c).1 = fits window log c ∧
      Retains window (log ++ [(c, fits window log c)]) c.now (stored (allow s c).2)) :
    ∀ {s : σ} {log : Log K} {last : Int}, good s → Retains window log last (stored s) →
      InOrder last cs →
      (serve allow s cs).1 = (serve (decideAll window) log cs).1 ∧
      (serve (decideAll window) log cs).2 = log ++ (serve (decideAll window) log cs).1 ∧
      good (serve allow s cs).2 ∧
      ∃ last', Retains window (serve (decideAll window) log cs).2 last'
        (stored (serve allow s cs).2) := by
  induction cs with
  | nil => exact fun {s log last} hgood h _ => ⟨rfl, (append_nil log).symm, hgood, last, h⟩
  | cons c cs ih =>
    intro s log last hgood h horder
    obtain ⟨hle, hrest⟩ := horder.cons
    obtain ⟨hgood', hdecision, hretains⟩ := hstep s c log hgood (h.later hle)
    obtain ⟨hlog, hall, hend, hkeeps⟩ := ih hgood' hretains hrest
    refine ⟨?_, ?_, hend, hkeeps⟩
    · show (c, (allow s c).1) :: _ = (c, fits window log c) :: _
      rw [hdecision, hlog]
      rfl
    · show (serve (decideAll window) (decideAll window log c).2 cs).2 = _
      refine hall.trans ?_
      rw [append_assoc]
      rfl

theorem retains_nil (last : Int) : Retains window ([] : Log K) last (fun _ => []) :=
  ⟨by simp, fun _ => List.Pairwise.nil, fun _ => List.Sublist.refl _, fun _ _ _ => rfl⟩

def RateLimiter.times (rl : RateLimiter K) (x : K) : List Int := (rl.requests x).getD []

def IPRateLimiter.times (rl : IPRateLimiter K) (x : K) : List Int := (rl.requests x).getD []

theorem RateLimiter.call_step (rl : RateLimiter K) (c : Call K) (log : Log K)
    (hw : rl.window = window) (h : Retains window log c.now rl.times) :
    (rl.call c).2.window = window ∧ (rl.call c).1 = fits window log c ∧
      Retains window (log ++ [(c, fits window log c)]) c.now (rl.call c).2.times := by
  subst hw
  refine ⟨rfl, h.admit_eq, h.record ?_ fun x hx => ?_⟩
  · unfold call allow times
    simp
  · unfold call allow times
    simp [hx]

namespace IPRateLimiter

variable (rl : IPRateLimiter K) (now : Int)

omit [DecidableEq K] in
theorem setLimit_spec (n : Int) : (rl.setLimit n).window = rl.window ∧
    (rl.setLimit n).requests = rl.requests ∧
    (rl.setLimit n).runtimeConfig.getD (rl.setLimit n).maxReqs = n := by
  unfold setLimit
  cases rl.runtimeConfig <;> exact ⟨rfl, rfl, rfl⟩

omit [DecidableEq K] in
theorem sweep_window : (rl.sweep now).window = rl.window ∧
    (rl.sweep now).runtimeConfig = rl.runtimeConfig ∧ (rl.sweep now).maxReqs = rl.maxReqs := by
  unfold sweep
  split <;> exact ⟨rfl, rfl, rfl⟩

omit [DecidableEq K] in
theorem sweep_times (x : K) : (rl.sweep now).times x = rl.times x ∨
    ((rl.sweep now).times x = [] ∧ ∀ t ∈ (rl.times x).getLast?, t < now - rl.window) := by
  unfold sweep times
  split
  · cases hx : rl.requests x with
    | none => simp [hx]
    | some ts =>
      cases hlast : ts.getLast? with
      | none => simp [hx, hlast]
      | some t =>
        by_cases ht : t < now - rl.window
        · simp [hx, hlast, ht]
        · simp [hx, hlast, ht]
  · exact .inl rfl

theorem call_step (rl : IPRateLimiter K) (c : Call K) (log : Log K) (hw : rl.window = window)
    (h : Retains window log c.now rl.times) :
    (rl.call c).2.window = window ∧ (rl.call c).1 = fits window log c ∧
      Retains window (log ++ [(c, fits window log c)]) c.now (rl.call c).2.times := by
  subst hw
  obtain ⟨hwindow, hrequests, hlimit⟩ := rl.setLimit_spec c.limit
  obtain ⟨hwindow', hconfig, hmax⟩ := (rl.setLimit c.limit).sweep_window c.now
  have hswept : Retains rl.window log c.now ((rl.setLimit c.limit).sweep c.now).times := by
    have hset : Retains rl.window log c.now (rl.setLimit c.limit).times := by
      unfold times
      rw [hrequests]
      exact h
    refine hset.evict fun x => ?_
    rw [← hwindow]
    exact (rl.setLimit c.limit).sweep_times c.now x
  have hcall : rl.call c =
      ((admitAt rl.window c.limit c.now (((rl.setLimit c.limit).sweep c.now).times c.identity)).1,
       { (rl.setLimit c.limit).sweep c.now with
         requests := Function.update ((rl.setLimit c.limit).sweep c.now).requests c.identity
           (some (admitAt rl.window c.limit c.now
             (((rl.setLimit c.limit).sweep c.now).times c.identity)).2) }) := by
    unfold call allow times
    simp only [hwindow', hwindow, hconfig, hmax, hlimit]
  rw [hcall]
  refine ⟨hwindow'.trans hwindow, hswept.admit_eq, hswept.record ?_ fun x hx => ?_⟩
  · unfold times
    simp
  · unfold times
    simp [hx]

end IPRateLimiter

/-! ## §5. Exactness, and independence of the others. -/

theorem fits_iff (log : Log K) (c : Call K) : fits window log c = true ↔
    ((log.filter fun e => e.1.identity = c.identity && e.2 &&
      (c.now - window < e.1.now && e.1.now ≤ c.now)).length : Int) < c.limit := by
  unfold fits admitted
  rw [List.filter_map, List.length_map, List.filter_filter, decide_eq_true_eq]
  simp only [Function.comp_apply, Bool.and_comm]

/-- Each decision is the one the log before it gives. -/
theorem serve_split {before after : Log K} {ok : Bool} :
    ∀ {log : Log K}, (serve (decideAll window) log cs).1 = before ++ (c, ok) :: after →
      ok = fits window (log ++ before) c := by
  induction cs generalizing before with
  | nil => exact fun {log} h => absurd h.symm (by simp [serve])
  | cons d cs ih =>
    intro log h
    replace h : (d, fits window log d) ::
      (serve (decideAll window) (log ++ [(d, fits window log d)]) cs).1 = _ := h
    cases before with
    | nil =>
      cases h
      rw [append_nil]
    | cons e before =>
      obtain ⟨rfl, htail⟩ := List.cons.inj h
      rw [ih htail, append_assoc]
      rfl

/-- The decisions on the calls of `x` are those taken without the others. -/
theorem serve_own (x : K) :
    ∀ (log own : Log K), admitted log x = admitted own x →
      (serve (decideAll window) log cs).1.filter (·.1.identity = x) =
        (serve (decideAll window) own (cs.filter (·.identity = x))).1 := by
  induction cs with
  | nil => exact fun _ _ _ => rfl
  | cons c cs ih =>
    intro log own hsame
    show List.filter _ ((c, fits window log c) ::
      (serve (decideAll window) (log ++ [(c, fits window log c)]) cs).1) = _
    by_cases hx : c.identity = x
    · have hfits : fits window log c = fits window own c := by
        unfold fits
        rw [hx, hsame]
      have hnext := ih (log ++ [(c, fits window log c)]) (own ++ [(c, fits window own c)])
        (by rw [admitted_append, admitted_append, hsame, hfits])
      rw [filter_cons_of_pos (by simpa using hx), filter_cons_of_pos (by simpa using hx),
        hnext, hfits]
      rfl
    · rw [filter_cons_of_neg (by simpa using hx), filter_cons_of_neg (by simpa using hx)]
      refine ih _ _ ?_
      rw [admitted_append, admitted_singleton, if_neg (fun h => hx h.1), append_nil, hsame]

omit [DecidableEq K] in
theorem exists_inOrder (h : (cs.map Call.now).Pairwise (· ≤ ·)) : ∃ last, InOrder last cs := by
  cases cs with
  | nil => exact ⟨0, pairwise_singleton _ _⟩
  | cons c cs =>
    refine ⟨c.now, pairwise_cons.2 ⟨fun t ht => ?_, h⟩⟩
    rcases mem_cons.1 ht with rfl | ht
    · exact Int.le_refl _
    · exact (pairwise_cons.1 h).1 t ht

theorem serve_rateLimiter (maxReqs : Int) (h : (cs.map Call.now).Pairwise (· ≤ ·)) :
    (serve RateLimiter.call (.new window maxReqs) cs).1 = (serve (decideAll window) [] cs).1 := by
  obtain ⟨last, horder⟩ := exists_inOrder h
  exact (serve_decideAll (fun rl => rl.window = window)
    (fun rl c log hw hr => rl.call_step c log hw hr) rfl (retains_nil last) horder).1

theorem serve_ipRateLimiter (window maxReqs : Int) (trustProxy : Bool) (runtimeConfig : Option Int)
    (h : (cs.map Call.now).Pairwise (· ≤ ·)) :
    let r := serve IPRateLimiter.call (.new window maxReqs trustProxy runtimeConfig) cs
    r.1 = (serve (decideAll window) [] cs).1 ∧ r.2.window = window ∧
      ∃ last, Retains window r.1 last r.2.times := by
  obtain ⟨last, horder⟩ := exists_inOrder h
  obtain ⟨hlog, hall, hw, hretains⟩ := serve_decideAll (fun rl => rl.window = window)
    (fun rl c log hw hr => IPRateLimiter.call_step rl c log hw hr)
    (s := .new window maxReqs trustProxy runtimeConfig) rfl (retains_nil last) horder
  rw [hall, nil_append, ← hlog] at hretains
  exact ⟨hlog, hw, hretains⟩

omit [DecidableEq K] in
/-- A sweep that is due removes the keys without a recent time. -/
theorem IPRateLimiter.sweep_removes (rl : IPRateLimiter K) {now : Int} {k : K}
    (hdue : rl.lastSweep + rl.window ≤ now) (hold : ∀ t ∈ rl.times k, t < now - rl.window) :
    (rl.sweep now).requests k = none := by
  unfold sweep
  rw [if_pos (by omega)]
  show (rl.requests k).bind _ = none
  cases hk : rl.requests k with
  | none => rfl
  | some ts =>
    rw [bind_some]
    cases hlast : ts.getLast? with
    | none => rfl
    | some t =>
      rw [bind_some, if_pos (hold t ?_)]
      unfold times
      rw [hk]
      exact mem_of_getLast? hlast

/-- **The limiters are exact sliding windows.**  A call is admitted if and
only if fewer than the limit in force of its identity's earlier calls were
admitted in the window that ends with it; the limiter without sweeps decides
the same; so does one that only `x` calls; and a call made one window after
the last sweep removes every key without a recent admission, its own being
written again. -/
theorem sliding_window_exact (window maxReqs : Int) (trustProxy : Bool)
    (runtimeConfig : Option Int) (cs : List (Call K))
    (h : (cs.map Call.now).Pairwise (· ≤ ·)) :
    let users := serve RateLimiter.call (RateLimiter.new window maxReqs) cs
    let ips := serve IPRateLimiter.call (.new window maxReqs trustProxy runtimeConfig) cs
    (∀ log ∈ [users.1, ips.1], ∀ before c ok after, log = before ++ (c, ok) :: after →
      (ok = true ↔ ((before.filter fun e => e.1.identity = c.identity && e.2 &&
        (c.now - window < e.1.now && e.1.now ≤ c.now)).length : Int) < c.limit)) ∧
    users.1 = ips.1 ∧
    (∀ x, users.1.filter (·.1.identity = x) =
        (serve RateLimiter.call (RateLimiter.new window maxReqs)
          (cs.filter (·.identity = x))).1 ∧
      ips.1.filter (·.1.identity = x) =
        (serve IPRateLimiter.call (.new window maxReqs trustProxy runtimeConfig)
          (cs.filter (·.identity = x))).1) ∧
    ∀ now ip k, ips.2.lastSweep + window ≤ now →
      (∀ e ∈ ips.1, e.1.identity = k → e.2 = true → e.1.now < now - window) →
      (ips.2.sweep now).requests k = none ∧
      (k ≠ ip → (ips.2.allow ip now).2.requests k = none) := by
  intro users ips
  have husers : users.1 = _ := serve_rateLimiter maxReqs h
  obtain ⟨hips, hwindow, last, hretains⟩ :=
    serve_ipRateLimiter window maxReqs trustProxy runtimeConfig h
  change ips.1 = _ at hips
  have hown : ∀ x, ((cs.filter (·.identity = x)).map Call.now).Pairwise (· ≤ ·) := fun x =>
    h.sublist (filter_sublist.map Call.now)
  refine ⟨fun log hlog before c ok after hsplit => ?_, husers.trans hips.symm, fun x => ⟨?_, ?_⟩,
    fun now ip k hdue hold => ?_⟩
  · have hspec : log = (serve (decideAll window) [] cs).1 := by
      rcases mem_cons.1 hlog with rfl | hlog
      · exact husers
      · rw [mem_singleton.1 hlog]
        exact hips
    rw [serve_split (hspec.symm.trans hsplit), nil_append]
    exact fits_iff before c
  · rw [husers, serve_rateLimiter maxReqs (hown x)]
    exact serve_own x [] [] rfl
  · rw [hips, (serve_ipRateLimiter window maxReqs trustProxy runtimeConfig (hown x)).1]
    exact serve_own x [] [] rfl
  · have hnone : (ips.2.sweep now).requests k = none := by
      refine ips.2.sweep_removes (by rw [hwindow]; exact hdue) fun t ht => ?_
      obtain ⟨e, he, rfl⟩ := mem_map.1 ((hretains.sub k).subset ht)
      obtain ⟨hmem, hkey⟩ := mem_filter.1 he
      simp only [Bool.and_eq_true, decide_eq_true_eq] at hkey
      rw [hwindow]
      exact hold e hmem hkey.1 hkey.2
    refine ⟨hnone, fun hne => ?_⟩
    show Function.update (ips.2.sweep now).requests ip _ k = none
    rw [update_of_ne hne, hnone]

/-- Three calls of one identity under a limit of two, and one of another after
the window: the third is refused, and the last sweeps the first key away. -/
theorem sliding_window_exact_two :
    ∃ cs : List (Call Nat), (cs.map Call.now).Pairwise (· ≤ ·) ∧
      ((serve IPRateLimiter.call (.new 60 2 true none) cs).1.map (·.2)) = [true, true, false] ∧
      ((serve IPRateLimiter.call (.new 60 2 true none) cs).2.allow 8 200).2.requests 7 = none :=
  ⟨[⟨7, 100, 2⟩, ⟨7, 110, 2⟩, ⟨7, 110, 2⟩], by decide, by decide +kernel,
    ((sliding_window_exact 60 2 true none _ (by decide)).2.2.2 200 8 7 (by decide +kernel)
      (by decide +kernel)).2 (by decide)⟩

end Talus.RateLimit
