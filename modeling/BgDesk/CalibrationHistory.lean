import BgDesk.CursorCalibration

/-!
# Where a served hotspot comes from

A hotspot that a stream serves in place of the one on the wire was measured twice: `Confirmed` finds
the two measurements in what all streams measured. The invariant follows it through the candidate of
a stream, through what the stream is about to do with the cache, and through the cache, from which
other streams take it.

* `store_spec`, `forget_spec` — what one lock of the cache may do;
* `CalSound` — what a stream's state says about what it measured; `CalSound.see`, `CalSound.measure`
  and `CalSound.confirm` are the parts of `on_cursor_plane`;
* `served_hotspots_confirmed` — every reachable state.
-/

namespace BgDesk.CursorCalibration

/-! ## The cache -/

/-- The cache is sorted by id and holds at most `CURSOR_CAL_CACHE_CAP` entries. -/
structure Bounded (cache : Cache) : Prop where
  sorted : cache.Pairwise (·.1 < ·.1)
  length : cache.length ≤ cursorCalCacheCap

variable {cache : Cache} {id gen : ℕ} {h : Hotspot}

theorem lookup_iff (hc : Bounded cache) {k : ℕ} {e : Hotspot × ℕ} :
    cache.lookup k = some e ↔ (k, e) ∈ cache :=
  (SortedMap.mem_iff_lookup (SortedMap.nodup_keys hc.sorted) k e).symm

/-- **Storing** adds at most the entry, keeps the cache within its capacity and takes away only what
the same generation or an older one confirmed. -/
theorem store_spec (hc : Bounded cache) (id : ℕ) (h : Hotspot) (gen : ℕ) :
    Bounded (storeCursorCal cache id h gen) ∧
      (∀ e ∈ storeCursorCal cache id h gen, e ∈ cache ∨ e = (id, h, gen)) ∧
      ∀ e ∈ cache, e ∉ storeCursorCal cache id h gen → e.2.2 ≤ gen := by
  have hcap := hc.length
  unfold storeCursorCal
  split
  · exact ⟨hc, fun e he => .inl he, fun e he hno => absurd he hno⟩
  next hold =>
  split
  · next hfull =>
    have hsorted : (cache.filter (gen < ·.2.2)).Pairwise (·.1 < ·.1) := hc.sorted.filter _
    have hle : (cache.filter (gen < ·.2.2)).length ≤ cache.length := List.length_filter_le _ _
    have hdrop : ∀ e ∈ cache, e ∉ cache.filter (gen < ·.2.2) → e.2.2 ≤ gen := fun e he hno =>
      Nat.le_of_not_lt fun hlt => hno (List.mem_filter.mpr ⟨he, decide_eq_true hlt⟩)
    dsimp only
    split
    · exact ⟨⟨hsorted, by omega⟩, fun e he => .inl (List.mem_of_mem_filter he), hdrop⟩
    · refine ⟨⟨SortedMap.pairwise_insert hsorted, ?_⟩, fun e he => ?_,
        fun e he hno => hdrop e he fun hkept => hno ?_⟩
      · have := SortedMap.length_insert_le id (h, gen) (cache.filter (gen < ·.2.2))
        omega
      · exact (SortedMap.mem_insert he).symm.imp_left List.mem_of_mem_filter
      · refine SortedMap.mem_insert_of_ne hkept fun heq => ?_
        have hlookup := (lookup_iff hc).mpr he
        rw [heq, Option.isNone_iff_eq_none.mp hfull.2] at hlookup
        cases hlookup
  · next hroom =>
    refine ⟨⟨SortedMap.pairwise_insert hc.sorted, ?_⟩, fun e he => (SortedMap.mem_insert he).symm,
      fun e he hno => ?_⟩
    · cases hlookup : cache.lookup id with
      | none =>
        have := SortedMap.length_insert_le id (h, gen) cache
        have : ¬ cursorCalCacheCap ≤ cache.length := fun hle => hroom ⟨hle, by rw [hlookup]; rfl⟩
        omega
      | some e =>
        rw [SortedMap.length_insert_of_lookup _ hc.sorted hlookup]
        exact hcap
    · have heq : e.1 = id := by
        by_contra hne
        exact hno (SortedMap.mem_insert_of_ne he hne)
      have hlookup := (lookup_iff hc).mpr he
      rw [heq] at hlookup
      rw [hlookup] at hold
      exact Nat.le_of_not_lt fun hlt => hold (decide_eq_true hlt)

/-- **Forgetting** takes away at most the entry of the id, and not one of a newer generation. -/
theorem forget_spec (hc : Bounded cache) (id gen : ℕ) :
    Bounded (forgetCursorCal cache id gen) ∧ (∀ e ∈ forgetCursorCal cache id gen, e ∈ cache) ∧
      ∀ e ∈ cache, e ∉ forgetCursorCal cache id gen → e.2.2 ≤ gen := by
  unfold forgetCursorCal
  split
  · next hold =>
    refine ⟨⟨hc.sorted.filter _, Nat.le_trans (List.length_filter_le _ _) hc.length⟩,
      fun e he => List.mem_of_mem_filter he, fun e he hno => ?_⟩
    have heq : e.1 = id := by
      by_contra hne
      exact hno (List.mem_filter.mpr ⟨he, decide_eq_true hne⟩)
    have hlookup := (lookup_iff hc).mpr he
    rw [heq] at hlookup
    rw [hlookup] at hold
    exact of_decide_eq_true hold
  · exact ⟨hc, fun e he => he, fun e he hno => absurd he hno⟩

theorem mem_of_cached (hc : Bounded cache) (hh : cachedCursorCal cache id gen = some h) :
    (id, h, gen) ∈ cache := by
  obtain ⟨e, he, rfl⟩ := Option.map_eq_some_iff.mp hh
  obtain ⟨hlookup, hgen⟩ := Option.filter_eq_some_iff.mp he
  obtain rfl := of_decide_eq_true hgen
  exact (lookup_iff hc).mp hlookup

/-! ## What was measured -/

/-- Within the tolerance in both coordinates. -/
def Close (h m : Hotspot) : Prop := (h.1 - m.1).natAbs ≤ 2 ∧ (h.2 - m.2).natAbs ≤ 2

/-- Two measurements that confirm `h`: of one stream, for the id and the generation, against
different samples under one mapping epoch, at different stops of the plane. -/
structure Confirms (first second : Measurement) (id gen : ℕ) (h : Hotspot) : Prop where
  value : first.value = some h
  again : ∃ m, second.value = some m ∧ Close h m
  stream : first.stream = second.stream
  shape : first.id = id ∧ second.id = id
  generation : first.builtGen = gen ∧ second.builtGen = gen
  sample : first.seq ≠ second.seq
  mapping : first.mapEpoch = second.mapEpoch
  stop : first.stop ≠ second.stop

/-- Some stream measured `h` and later confirmed it. -/
def Confirmed (measured : List Measurement) (id gen : ℕ) (h : Hotspot) : Prop :=
  ∃ first second, [first, second].Sublist measured ∧ Confirms first second id gen h

variable {measured : List Measurement} {c : CursorCal} {i : ℕ} {st : Stream} {s : State}

theorem Confirmed.mono (hc : Confirmed measured id gen h) (more : List Measurement) :
    Confirmed (measured ++ more) id gen h := by
  obtain ⟨first, second, hsub, hconf⟩ := hc
  exact ⟨first, second, hsub.trans (List.sublist_append_left _ _), hconf⟩

/-- The values for which `near` is exact: all of them in a debug build, which panics where it is
not; in a release build those that `measure_hotspot` can return, none of them negative. -/
def Sane (build : Build) (h : Hotspot) : Prop :=
  build = .debug ∨ (0 ≤ h.1 ∧ h.1 < 2147483648) ∧ 0 ≤ h.2 ∧ h.2 < 2147483648

/-- `measure_hotspot` returns sane values for sizes in `i32`. -/
def Measures (build : Build) (measure : CalContext → Pos → Pos → ℤ × ℤ → Option Hotspot) : Prop :=
  ∀ ctx injected plane w h v, measure ctx injected plane
    (CursorHotspot.asI32 w, CursorHotspot.asI32 h) = some v → Sane build v

theorem measures_debug (measure : CalContext → Pos → Pos → ℤ × ℤ → Option Hotspot) :
    Measures .debug measure :=
  fun _ _ _ _ _ _ _ => .inl rfl

variable {build : Build}

theorem distance_self (build : Build) (a : ℤ) : distance build a a = some 0 := by
  cases build <;> simp [distance]

theorem near_self (build : Build) (h : Hotspot) : near build h h = some true := by
  simp [near, distance_self, cursorCalTolerance]

theorem distance_exact {a b d : ℤ}
    (hab : build = .debug ∨ (0 ≤ a ∧ a < 2147483648) ∧ 0 ≤ b ∧ b < 2147483648)
    (hd : distance build a b = some d) : d = (a - b).natAbs := by
  cases build with
  | debug => exact (Option.some.inj (Option.ite_none_right_eq_some.mp hd).2).symm
  | release =>
    have hrange := hab.resolve_left nofun
    have hmod : (a - b).bmod 4294967296 = a - b := Int.bmod_eq_of_le (by omega) (by omega)
    obtain rfl := Option.some.inj hd
    rw [hmod, if_neg (by omega)]

theorem near_close {k m : Hotspot} (hk : Sane build k) (hm : Sane build m)
    (hnear : near build k m = some true) : Close k m := by
  unfold near at hnear
  obtain ⟨dx, hdx, hnear⟩ := Option.bind_eq_some_iff.mp hnear
  split at hnear
  · next hx =>
    obtain ⟨dy, hdy, hnear⟩ := Option.bind_eq_some_iff.mp hnear
    have hy : dy ≤ cursorCalTolerance := of_decide_eq_true (Option.some.inj hnear)
    have hdx := distance_exact (by unfold Sane at hk hm; tauto) hdx
    have hdy := distance_exact (by unfold Sane at hk hm; tauto) hdy
    unfold cursorCalTolerance at hx hy
    exact ⟨by omega, by omega⟩
  · cases hnear

/-! ## One stream -/

/-- What the state of a stream's shape says about what the stream measured. -/
structure CalSound (measured : List Measurement) (i : ℕ) (st : Stream) (c : CursorCal) : Prop where
  plane : ∀ p, c.plane = some p → st.lastPos = some p
  fresh : c.plane = none → ∀ r ∈ measured, r.stream = i → r.shape ≠ st.shapes
  once : ∀ r ∈ measured, r.stream = i → r.shape = st.shapes → r.stop = st.stops →
    c.measuredThisPosition = true
  candidate : ∀ k seq epoch, c.candidate = some (k, seq, epoch) →
    ∃ r ∈ measured, (r.stream = i ∧ r.shape = st.shapes) ∧
    (r.id = c.id ∧ r.builtGen = c.ctx.builtGen) ∧ r.value = some k ∧ r.seq = seq ∧
      r.mapEpoch = epoch
  served : c.currentHot = c.wireHot ∨ Confirmed measured c.id c.ctx.builtGen c.currentHot

/-- What a stream is about to do is right for its shape. -/
def PendingSound (measured : List Measurement) (c : CursorCal) : Pending → Prop
  | .forgetServed => True
  | .check => c.currentHot ≠ c.wireHot
  | .restore => c.currentHot ≠ c.wireHot
  | .forgetAndServeWire => c.wireHot ≠ c.currentHot
  | .storeAndServe accepted =>
    accepted ≠ c.currentHot ∧ Confirmed measured c.id c.ctx.builtGen accepted

structure StreamSound (measured : List Measurement) (i : ℕ) (st : Stream) : Prop where
  shapes : ∀ r ∈ measured, r.stream = i → r.shape ≤ st.shapes
  stops : ∀ r ∈ measured, r.stream = i → r.stop ≤ st.stops
  cal : ∀ c, st.cal = some c → CalSound measured i st c
  pending : ∀ c op, st.cal = some c → st.pending = some op → PendingSound measured c op

theorem PendingSound.mono {op : Pending} (h : PendingSound measured c op)
    (more : List Measurement) : PendingSound (measured ++ more) c op := by
  cases op with
  | storeAndServe accepted => exact ⟨h.1, h.2.mono more⟩
  | _ => exact h

/-- What another stream measures changes nothing for this one. -/
theorem StreamSound.mono (h : StreamSound measured i st) {more : List Measurement}
    (hmore : ∀ r ∈ more, r.stream ≠ i) : StreamSound (measured ++ more) i st := by
  have hold : ∀ r ∈ measured ++ more, r.stream = i → r ∈ measured := fun r hr hi =>
    (List.mem_append.mp hr).resolve_right fun hr => hmore r hr hi
  refine ⟨fun r hr hi => h.shapes r (hold r hr hi) hi, fun r hr hi => h.stops r (hold r hr hi) hi,
    fun c hc => ?_,
    fun c op hc hop => (h.pending c op hc hop).mono more⟩
  have hcal := h.cal c hc
  refine ⟨hcal.plane, fun hp r hr hi => hcal.fresh hp r (hold r hr hi) hi,
    fun r hr hi => hcal.once r (hold r hr hi) hi,
    fun k seq epoch hk => ?_, hcal.served.imp_right fun hconf => hconf.mono more⟩
  obtain ⟨r, hr, hrest⟩ := hcal.candidate k seq epoch hk
  exact ⟨r, List.mem_append_left _ hr, hrest⟩

section See

variable {measured : List Measurement} {i : ℕ} {st : Stream} {c : CursorCal}

theorem seenAt_shapes (st : Stream) (p : Pos) : (st.seenAt p).shapes = st.shapes := by
  unfold Stream.seenAt
  split <;> rfl

theorem seenAt_lastPos (st : Stream) (p : Pos) : (st.seenAt p).lastPos = some p := by
  unfold Stream.seenAt
  split
  · assumption
  · rfl

theorem stops_le_seenAt (st : Stream) (p : Pos) : st.stops ≤ (st.seenAt p).stops := by
  unfold Stream.seenAt
  split
  · exact Nat.le_refl _
  · exact Nat.le_succ _

/-- **A frame's position** is taken over: at another position than before a new stop begins. -/
theorem CalSound.see (h : CalSound measured i st c)
    (hstops : ∀ r ∈ measured, r.stream = i → r.stop ≤ st.stops) (p : Pos) :
    CalSound measured i (st.seenAt p) (updatePlaneStability c p) ∧
      (updatePlaneStability c p).plane = some p := by
  unfold updatePlaneStability
  split
  · next hmoved =>
    refine ⟨⟨fun q hq => ?_, (by rintro ⟨⟩), fun r hr hi hshape hstop => ?_, ?_, h.served⟩, rfl⟩
    · exact (seenAt_lastPos st p).trans hq
    · -- a measurement at this stop would be one of this shape before the plane got here
      rw [seenAt_shapes] at hshape
      exfalso
      cases hplane : c.plane with
      | none => exact h.fresh hplane r hr hi hshape
      | some q =>
        have hlast := h.plane q hplane
        have hne : st.lastPos ≠ some p := fun heq => hmoved (hplane.trans (hlast.symm.trans heq))
        have hle := hstops r hr hi
        rw [Stream.seenAt, if_neg hne] at hstop
        simp only at hstop
        omega
    · rw [seenAt_shapes]
      exact h.candidate
  · next hstill =>
    have hplane : c.plane = some p := not_not.mp hstill
    have hsame : st.seenAt p = st := if_pos (h.plane p hplane)
    rw [hsame]
    exact ⟨⟨h.plane, h.fresh, h.once, h.candidate, h.served⟩, hplane⟩

/-- **A measurement** is the only one at its stop, and the shape's state knows of it. -/
theorem CalSound.measure (h : CalSound measured i st c) (hplane : c.plane ≠ none)
    (m : Option Hotspot × ℕ × ℕ) :
    CalSound (measured ++ [st.record i c m]) i st { c with measuredThisPosition := true } := by
  refine ⟨h.plane, fun hnone => absurd hnone hplane, fun _ _ _ _ _ => rfl, fun k seq epoch hk => ?_,
    h.served.imp_right fun hconf => hconf.mono _⟩
  obtain ⟨r, hr, hrest⟩ := h.candidate k seq epoch hk
  exact ⟨r, List.mem_append_left _ hr, hrest⟩

/-- **The confirmation policy**: what it accepts was measured before and again now, at another stop.
-/
theorem CalSound.observe (h : CalSound measured i st c) (hfresh : c.measuredThisPosition = false)
    (hplane : c.plane ≠ none)
    (hsane : ∀ r ∈ measured, ∀ v, r.value = some v → Sane build v) {m : Hotspot} (hm : Sane build m)
    {seq epoch : ℕ} {c' : CursorCal} {accepted : Option Hotspot}
    (hobs : observeMeasurement build { c with measuredThisPosition := true }
    m seq epoch = some (c', accepted)) :
    CalSound (measured ++ [st.record i c (some m, seq, epoch)]) i st c' ∧
      ∀ k, accepted = some k → Confirmed (measured ++ [st.record i c (some m, seq, epoch)])
        c'.id c'.ctx.builtGen k := by
  have hnext := h.measure hplane (some m, seq, epoch)
  have hlast : st.record i c (some m, seq, epoch) ∈ measured ++
    [st.record i c (some m, seq, epoch)] :=
    List.mem_append_right _ (List.mem_singleton_self _)
  -- the new candidate is the measurement just taken
  have hreplaced : CalSound (measured ++ [st.record i c (some m, seq, epoch)]) i st
      { c with measuredThisPosition := true, candidate := some (m, seq, epoch) } := by
    refine ⟨hnext.plane, hnext.fresh, hnext.once, fun k kseq kepoch hk => ?_, hnext.served⟩
    cases hk
    exact ⟨_, hlast, ⟨rfl, rfl⟩, ⟨rfl, rfl⟩, rfl, rfl, rfl⟩
  unfold observeMeasurement at hobs
  dsimp only at hobs
  cases hcand : c.candidate with
  | none =>
    rw [hcand] at hobs
    cases hobs
    exact ⟨hreplaced, nofun⟩
  | some cand =>
    obtain ⟨k, kseq, kepoch⟩ := cand
    rw [hcand] at hobs
    dsimp only at hobs
    split at hobs
    · cases hobs
      rw [hcand] at hnext
      exact ⟨hnext, nofun⟩
    next hseq =>
    split at hobs
    · next hepoch =>
      obtain ⟨agrees, hnear, hobs⟩ := Option.bind_eq_some_iff.mp hobs
      split at hobs
      · next htrue =>
        cases hobs
        refine ⟨⟨hnext.plane, hnext.fresh, hnext.once, by rintro _ _ _ ⟨⟩, hnext.served⟩,
          fun k' hk' => ?_⟩
        cases hk'
        obtain ⟨r, hr, ⟨hstream, hshape⟩, ⟨hid, hgen⟩, hvalue, hrseq, hrepoch⟩ :=
          h.candidate _ _ _ hcand
        have hsub : [r, st.record i c (some m, seq, epoch)].Sublist
          (measured ++ [st.record i c (some m, seq, epoch)]) :=
          (List.singleton_sublist.mpr hr).append (List.Sublist.refl _)
        refine ⟨r, _, hsub, hvalue,
          ⟨m, rfl, near_close (hsane r hr k hvalue) hm (hnear.trans (congrArg some htrue))⟩,
          hstream, ⟨hid, rfl⟩, ⟨hgen, rfl⟩, ?_, hrepoch.trans hepoch, fun hstop => ?_⟩
        · exact fun heq => hseq (hrseq.symm.trans heq)
        · rw [h.once r hr hstream hshape hstop] at hfresh
          cases hfresh
      · cases hobs
        exact ⟨hreplaced, nofun⟩
    · cases hobs
      exact ⟨hreplaced, nofun⟩

/-- **A confirmed hotspot** is applied so that the assertion holds: what is served changes. -/
theorem apply_sound {accepted : Hotspot} {op : Pending}
    (hconf : Confirmed measured c.id c.ctx.builtGen accepted)
    (happly : applyConfirmedHotspot build c accepted = some op) : PendingSound measured c op := by
  unfold applyConfirmedHotspot at happly
  obtain ⟨served, hserved, happly⟩ := Option.bind_eq_some_iff.mp happly
  split at happly
  · cases happly
    split
    · trivial
    · next hne => exact hne
  · next hfar =>
    obtain ⟨wire, hwire, happly⟩ := Option.bind_eq_some_iff.mp happly
    split at happly
    · next hnear =>
      cases happly
      intro heq
      rw [heq] at hwire
      exact hfar (Option.some.inj (hserved.symm.trans hwire) ▸ hnear)
    · cases happly
      refine ⟨fun heq => ?_, hconf⟩
      rw [heq, near_self] at hserved
      exact hfar (Option.some.inj hserved).symm

/-- From a measured value on. -/
theorem CalSound.confirm (h : CalSound measured i st c) (hfresh : c.measuredThisPosition = false)
    (hplane : c.plane ≠ none)
    (hsane : ∀ r ∈ measured, ∀ v, r.value = some v → Sane build v) {m : Hotspot} (hm : Sane build m)
    {seq epoch : ℕ} {c' : CursorCal} {pending : Option Pending}
    (hconf : confirm build { c with measuredThisPosition := true }
    m seq epoch = some (c', pending)) :
    CalSound (measured ++ [st.record i c (some m, seq, epoch)]) i st c' ∧
      ∀ op, pending = some op → PendingSound (measured ++ [st.record i c (some m, seq, epoch)])
        c' op := by
  unfold CursorCalibration.confirm at hconf
  split at hconf
  · cases hconf
  · next hobs =>
    cases hconf
    exact ⟨(h.observe hfresh hplane hsane hm hobs).1, nofun⟩
  · next accepted hobs =>
    obtain ⟨hsound, hacc⟩ := h.observe hfresh hplane hsane hm hobs
    split at hconf
    · cases hconf
    · next op happly =>
      cases hconf
      refine ⟨hsound, fun op' hop => ?_⟩
      cases hop
      exact apply_sound (hacc _ rfl) happly

/-- What a measurement of a stream may be: the only one of its shape at its stop, and sane. -/
def Fresh (build : Build) (measured : List Measurement) (i : ℕ) (st : Stream) (r : Measurement) :
    Prop :=
  (r.stream = i ∧ r.shape = st.shapes ∧ r.stop = st.stops) ∧
    (∀ r' ∈ measured, ¬ (r'.stream = i ∧ r'.shape = st.shapes ∧ r'.stop = st.stops)) ∧
      ∀ v, r.value = some v → Sane build v

variable {measure : CalContext → Pos → Pos → ℤ × ℤ → Option Hotspot}

/-- **What `on_cursor_plane` can do**: no measurement, one without a value, one that panics where it
is compared, one that is compared. -/
theorem onCursorPlane_cases (hmeasure : Measures build measure) (c : CursorCal) (p : Pos)
    (sample : Option PeerAbsSample) (drifted : Bool) (currentGen mapGen mapEpoch : ℕ)
    {c₁ : CursorCal} (hc₁ : updatePlaneStability c p = c₁) {r : Outcome}
    (hr : onCursorPlane build measure c p sample drifted currentGen mapGen mapEpoch = r) :
    r = { cal := some c₁, pending := none, measured := none } ∨
      c₁.measuredThisPosition = false ∧ ∃ seq epoch,
        r =
          { cal := some { c₁ with measuredThisPosition := true }, pending := none,
            measured := some (none, seq, epoch) } ∨
          ∃ m, Sane build m ∧
            (r = { cal := none, pending := none, measured := some (some m, seq, epoch) } ∨
              ∃ c₂ pending, confirm build { c₁ with measuredThisPosition := true }
                m seq epoch = some (c₂, pending) ∧
                r = { cal := some c₂, pending, measured := some (some m, seq, epoch) }) := by
  unfold onCursorPlane at hr
  rw [hc₁] at hr
  dsimp only at hr
  split at hr
  · next hsettled =>
    have hfresh : c₁.measuredThisPosition = false := by
      have := ((Bool.and_eq_true _ _).mp hsettled).1
      simpa using this
    split at hr
    · exact .inl hr.symm
    · next injected seq epoch husable =>
      refine .inr ⟨hfresh, seq, epoch, ?_⟩
      split at hr
      · exact .inl hr.symm
      · next m hm =>
        refine .inr ⟨m, hmeasure _ _ _ _ _ _ hm, ?_⟩
        split at hr
        · exact .inl hr.symm
        · next c₂ pending hconf => exact .inr ⟨c₂, pending, hconf, hr.symm⟩
  · exact .inl hr.symm

theorem fresh_record
    (hnone : ∀ r ∈ measured, ¬ (r.stream = i ∧ r.shape = st.shapes ∧ r.stop = st.stops))
    {m : Option Hotspot × ℕ × ℕ} (hm : ∀ v, m.1 = some v → Sane build v) (c : CursorCal) :
    Fresh build measured i st (st.record i c m) :=
  ⟨⟨rfl, rfl, rfl⟩, hnone, hm⟩

/-- **`on_cursor_plane`**: at most one measurement, which is fresh, and all that the stream knows
and is about to do stays sound. -/
theorem CalSound.onCursorPlane (h : CalSound measured i st c)
    (hstops : ∀ r ∈ measured, r.stream = i → r.stop ≤ st.stops)
    (hsane : ∀ r ∈ measured, ∀ v, r.value = some v → Sane build v)
    (hmeasure : Measures build measure) (p : Pos) (sample : Option PeerAbsSample) (drifted : Bool)
    (currentGen mapGen mapEpoch : ℕ) {r : Outcome}
    (hr : onCursorPlane build measure c p sample drifted currentGen mapGen mapEpoch = r)
    {st' : Stream} (hst : st.seenAt p = st') :
    (∀ m, r.measured = some m → Fresh build measured i st' (st'.record i c m)) ∧
      (∀ c', r.cal = some c' → CalSound (measured ++ (r.measured.map (st'.record i c)).toList)
        i st' c') ∧
      ∀ c' op, r.cal = some c' → r.pending = some op →
        PendingSound (measured ++ (r.measured.map (st'.record i c)).toList) c' op := by
  obtain ⟨hsee, hplane⟩ := h.see hstops p
  obtain ⟨c₁, hc₁⟩ : ∃ c₁, updatePlaneStability c p = c₁ := ⟨_, rfl⟩
  have hid : ∀ m, st'.record i c₁ m = st'.record i c m := by
    intro m
    subst hc₁
    unfold updatePlaneStability
    split <;> rfl
  rw [hc₁, hst] at hsee
  rw [hc₁] at hplane
  have hplane' : c₁.plane ≠ none := by
    rw [hplane]
    nofun
  have hnone : c₁.measuredThisPosition = false →
      ∀ r ∈ measured, ¬ (r.stream = i ∧ r.shape = st'.shapes ∧ r.stop = st'.stops) := by
    rintro hfresh r hr ⟨hi, hshape, hstop⟩
    rw [hsee.once r hr hi hshape hstop] at hfresh
    cases hfresh
  obtain rfl | ⟨hfresh, seq, epoch, rfl | ⟨m, hm, rfl | ⟨c₂, pending, hconf, rfl⟩⟩⟩ :=
    onCursorPlane_cases hmeasure c p sample drifted currentGen mapGen mapEpoch hc₁ hr
  · refine ⟨by rintro _ ⟨⟩, ?_, by rintro _ _ _ ⟨⟩⟩
    rintro _ ⟨⟩
    rw [Option.map_none, Option.toList_none, List.append_nil]
    exact hsee
  · refine ⟨?_, ?_, by rintro _ _ _ ⟨⟩⟩
    · rintro _ ⟨⟩
      exact fresh_record (hnone hfresh) (by rintro _ ⟨⟩) c
    · rintro _ ⟨⟩
      rw [Option.map_some, Option.toList_some, ← hid]
      exact hsee.measure hplane' _
  · refine ⟨?_, by rintro _ ⟨⟩, by rintro _ _ ⟨⟩⟩
    rintro _ ⟨⟩
    exact fresh_record (hnone hfresh) (by rintro _ ⟨⟩; exact hm) c
  · obtain ⟨hsound, hpend⟩ := hsee.confirm hfresh hplane' hsane hm hconf
    rw [hid] at hsound hpend
    refine ⟨?_, ?_, ?_⟩
    · rintro _ ⟨⟩
      exact fresh_record (hnone hfresh) (by rintro _ ⟨⟩; exact hm) c
    · rintro _ ⟨⟩
      exact hsound
    · rintro _ op ⟨⟩ hop
      exact hpend op hop

end See

/-! ## All streams -/

structure Sound (build : Build) (s : State) : Prop where
  cache : Bounded s.cache
  confirmed : ∀ e ∈ s.cache, Confirmed s.measured e.1 e.2.2 e.2.1
  streams : ∀ i, StreamSound s.measured i (s.streams i)
  once : s.measured.Pairwise fun r r' =>
    ¬ (r.stream = r'.stream ∧ r.shape = r'.shape ∧ r.stop = r'.stop)
  sane : ∀ r ∈ s.measured, ∀ v, r.value = some v → Sane build v
  assert : s.assertFailed = false

theorem sound_init (build : Build) : Sound build .init where
  cache := ⟨.nil, Nat.zero_le _⟩
  confirmed := fun _ he => (List.not_mem_nil he).elim
  streams := fun _ =>
    ⟨fun _ hr => (List.not_mem_nil hr).elim, fun _ hr => (List.not_mem_nil hr).elim, by
      rintro _ ⟨⟩, by rintro _ _ ⟨⟩⟩
  once := .nil
  sane := fun _ hr => (List.not_mem_nil hr).elim
  assert := rfl

/-- A step that only touches one stream. -/
theorem Sound.setStream (h : Sound build s) (hst : StreamSound s.measured i st) :
    Sound build (s.setStream i st) := by
  refine ⟨h.cache, h.confirmed, fun j => ?_, h.once, h.sane, h.assert⟩
  by_cases hj : j = i
  · subst hj
    rwa [setStream_self]
  · rw [setStream_ne s st hj]
    exact h.streams j

/-- **A shape** starts without a candidate, under the wire's hotspot or a confirmed one. -/
theorem Sound.shape (h : Sound build s) {ctx : Option CalContext} {id width height : ℕ}
    {hotx hoty : ℤ} {hotMeasured : Bool} {t : ℤ} {cal : Option CursorCal}
    (hpend : (s.streams i).pending = none)
    (hshape : onCursorShape build s.cache ctx id width height hotx hoty hotMeasured t = some cal) :
    StreamSound s.measured i { s.streams i with cal, shapes := (s.streams i).shapes + 1 } := by
  have hst := h.streams i
  refine ⟨fun r hr hi => Nat.le_succ_of_le (hst.shapes r hr hi), hst.stops, fun c hc => ?_,
    fun c op _ hop => ?_⟩
  · have hc : cal = some c := hc
    have hnew : ∀ r ∈ s.measured, r.stream = i → r.shape ≠ (s.streams i).shapes + 1 :=
      fun r hr hi heq => by
      have := hst.shapes r hr hi
      omega
    unfold onCursorShape at hshape
    split at hshape
    · cases hshape
      cases hc
    split at hshape
    · cases hshape
    next ctx hctx hupright =>
    cases hshape
    cases hc
    refine ⟨by rintro _ ⟨⟩, fun _ => hnew, fun r hr hi hsh _ => absurd hsh (hnew r hr hi), by
      rintro _ _ _ ⟨⟩, ?_⟩
    dsimp only
    cases hcached : cachedCursorCal s.cache id ctx.builtGen with
    | none => exact .inl rfl
    | some v => exact .inr (h.confirmed _ (mem_of_cached h.cache hcached))
  · have hop : (s.streams i).pending = some op := hop
    rw [hpend] at hop
    cases hop

theorem CalSound.serve (h : CalSound measured i st c) {target : Hotspot}
    (htarget : target = c.wireHot ∨ Confirmed measured c.id c.ctx.builtGen target) :
    CalSound measured i st (CursorCalibration.serve c target).1 :=
  ⟨h.plane, h.fresh, h.once, h.candidate, htarget⟩

/-- **A lock of the cache**: the cache stays bounded and confirmed and loses nothing of a newer
generation, the assertion holds and the stream goes on soundly. -/
theorem run_sound (hcal : CalSound measured i st c) (hcache : Bounded cache)
    (hconf : ∀ e ∈ cache, Confirmed measured e.1 e.2.2 e.2.1) {op : Pending}
    (hop : PendingSound measured c op) {cache' : Cache} {c' : CursorCal} {failed : Bool}
    {next : Option Pending} (hrun : op.run cache c = (cache', c', failed, next)) :
    (Bounded cache' ∧ ∀ e ∈ cache', Confirmed measured e.1 e.2.2 e.2.1) ∧
      (CalSound measured i st c' ∧ ∀ op', next = some op' → PendingSound measured c' op') ∧
      failed = false ∧ ∀ e ∈ cache, e ∉ cache' → e.2.2 ≤ c.ctx.builtGen := by
  have hforget := forget_spec hcache c.id c.ctx.builtGen
  have hforgetConf : ∀ e ∈ forgetCursorCal cache c.id c.ctx.builtGen,
    Confirmed measured e.1 e.2.2 e.2.1 :=
    fun e he => hconf e (hforget.2.1 e he)
  have hstore : ∀ v, Confirmed measured c.id c.ctx.builtGen v →
      ∀ e ∈ storeCursorCal cache c.id v c.ctx.builtGen, Confirmed measured e.1 e.2.2 e.2.1 := by
    intro v hv e he
    rcases (store_spec hcache c.id v c.ctx.builtGen).2.1 e he with he | rfl
    · exact hconf e he
    · exact hv
  cases op with
  | forgetServed =>
    cases hrun
    exact ⟨⟨hforget.1, hforgetConf⟩, ⟨hcal, by rintro _ ⟨⟩⟩, rfl, hforget.2.2⟩
  | check =>
    cases hrun
    refine ⟨⟨hcache, hconf⟩, ⟨hcal, fun op' hop' => ?_⟩, rfl, fun e he hno => absurd he hno⟩
    split at hop'
    · cases hop'
      exact hop
    · cases hop'
  | restore =>
    cases hrun
    have hserved := hcal.served.resolve_left hop
    exact ⟨⟨(store_spec hcache _ _ _).1, hstore _ hserved⟩, ⟨hcal, by rintro _ ⟨⟩⟩, rfl,
      (store_spec hcache _ _ _).2.2⟩
  | forgetAndServeWire =>
    cases hrun
    exact ⟨⟨hforget.1, hforgetConf⟩, ⟨hcal.serve (.inl rfl), by rintro _ ⟨⟩⟩, decide_eq_false hop,
      hforget.2.2⟩
  | storeAndServe accepted =>
    cases hrun
    exact ⟨⟨(store_spec hcache _ _ _).1, hstore _ hop.2⟩, ⟨hcal.serve (.inr hop.2), by rintro _ ⟨⟩⟩,
      decide_eq_false hop.1,
      (store_spec hcache _ _ _).2.2⟩

variable {measure : CalContext → Pos → Pos → ℤ × ℤ → Option Hotspot}

/-- What only counts of a stream is what happened to it. -/
theorem CalSound.congr {st' : Stream} (h : CalSound measured i st c)
    (hshapes : st'.shapes = st.shapes) (hlast : st'.lastPos = st.lastPos)
    (hstops : st'.stops = st.stops) : CalSound measured i st' c := by
  obtain ⟨hplane, hfresh, honce, hcand, hserved⟩ := h
  rw [← hlast] at hplane
  rw [← hshapes] at hfresh honce hcand
  rw [← hstops] at honce
  exact ⟨hplane, hfresh, honce, hcand, hserved⟩

/-- **A frame** of a stream that shows a shape. -/
theorem Sound.plane (hmeasure : Measures build measure) (h : Sound build s)
    (hc : (s.streams i).cal = some c) (p : Pos) (sample : Option PeerAbsSample) (drifted : Bool)
    (currentGen mapGen mapEpoch : ℕ) {r : Outcome}
    (hr : onCursorPlane build measure c p sample drifted currentGen mapGen mapEpoch = r)
    (hst : (s.streams i).seenAt p = st) : Sound build
      ({ s with measured := s.measured ++ (r.measured.map (st.record i c)).toList }.setStream i
      { st with cal := r.cal, pending := r.pending, ended := r.cal.isNone }) := by
  have hstream := h.streams i
  obtain ⟨hfresh, hcal, hpend⟩ :=
    (hstream.cal c hc).onCursorPlane hstream.stops h.sane hmeasure p sample drifted currentGen
    mapGen mapEpoch hr hst
  have hnew : ∀ r' ∈ (r.measured.map (st.record i c)).toList, Fresh build s.measured i st r' := by
    intro r' hr'
    obtain ⟨m, hm, rfl⟩ := Option.map_eq_some_iff.mp (Option.mem_toList.mp hr')
    exact hfresh m hm
  have hshapes : st.shapes = (s.streams i).shapes := hst ▸ seenAt_shapes _ p
  have hstops : (s.streams i).stops ≤ st.stops := hst ▸ stops_le_seenAt _ p
  refine ⟨h.cache, fun e he => (h.confirmed e he).mono _, fun j => ?_, ?_, fun r' hr' => ?_,
    h.assert⟩
  · by_cases hj : j = i
    · subst hj
      rw [setStream_self]
      refine ⟨fun r' hr' hi => ?_, fun r' hr' hi => ?_,
        fun c' hc' => (hcal c' hc').congr rfl rfl rfl, hpend⟩
      · rcases List.mem_append.mp hr' with hr' | hr'
        · exact hshapes ▸ hstream.shapes r' hr' hi
        · exact (hnew r' hr').1.2.1.le
      · rcases List.mem_append.mp hr' with hr' | hr'
        · exact Nat.le_trans (hstream.stops r' hr' hi) hstops
        · exact (hnew r' hr').1.2.2.le
    · rw [setStream_ne _ _ hj]
      exact (h.streams j).mono fun r' hr' heq => hj (heq.symm.trans (hnew r' hr').1.1)
  · refine List.pairwise_append.mpr ⟨h.once, ?_, fun r₁ hr₁ r₂ hr₂ heq => ?_⟩
    · cases r.measured <;> simp
    · obtain ⟨hi, hshape, hstop⟩ := (hnew r₂ hr₂).1
      exact (hnew r₂ hr₂).2.1 r₁ hr₁ ⟨heq.1.trans hi, heq.2.1.trans hshape, heq.2.2.trans hstop⟩
  · rcases List.mem_append.mp hr' with hr' | hr'
    · exact h.sane r' hr'
    · exact (hnew r' hr').2.2

/-- **One step** of any stream keeps all of it. -/
theorem Sound.step (hmeasure : Measures build measure) {s' : State} {a : Act} (h : Sound build s)
    (hstep : step build measure s a = some s') : Sound build s' ∧ ∀ e ∈ s.cache, e ∉ s'.cache →
      ∃ i c, a = .cache i ∧ (s.streams i).cal = some c ∧ e.2.2 ≤ c.ctx.builtGen := by
  cases a with
  | shape i ctx id width height hotx hoty hotMeasured t =>
    unfold CursorCalibration.step at hstep
    dsimp only at hstep
    split at hstep
    · cases hstep
    next hidle =>
    have hpend : (s.streams i).pending = none := by
      have := (not_or.mp hidle).2
      simpa using this
    split at hstep
    · cases hstep
      refine ⟨h.setStream ⟨(h.streams i).shapes,
        (h.streams i).stops, by rintro _ ⟨⟩, by rintro _ _ ⟨⟩⟩, fun e he hno => ?_⟩
      exact absurd he hno
    · next cal hshape =>
      cases hstep
      exact ⟨h.setStream (h.shape hpend hshape), fun e he hno => absurd he hno⟩
  | plane i pos sample drifted currentGen mapGen mapEpoch =>
    unfold CursorCalibration.step at hstep
    dsimp only at hstep
    split at hstep
    · cases hstep
    next hidle =>
    split at hstep
    · cases hstep
      exact ⟨h, fun e he hno => absurd he hno⟩
    next p =>
    have hcal : ((s.streams i).seenAt p).cal = (s.streams i).cal := by
      unfold Stream.seenAt
      split <;> rfl
    split at hstep
    · next hnone =>
      cases hstep
      refine ⟨h.setStream ⟨fun r hr hi => ?_, fun r hr hi => ?_, fun c hc => ?_, fun c op hc => ?_⟩,
        fun e he hno => absurd he hno⟩
      · rw [seenAt_shapes]
        exact (h.streams i).shapes r hr hi
      · exact Nat.le_trans ((h.streams i).stops r hr hi) (stops_le_seenAt _ p)
      · rw [hnone] at hc
        cases hc
      · rw [hnone] at hc
        cases hc
    · next c hc =>
      cases hstep
      exact ⟨h.plane hmeasure (hcal.symm.trans hc)
        p sample drifted currentGen mapGen mapEpoch rfl rfl,
        fun e he hno => absurd he hno⟩
  | cache i =>
    unfold CursorCalibration.step at hstep
    dsimp only at hstep
    split at hstep
    · next c op hc hop =>
      obtain ⟨⟨cache', c', failed, next⟩, hrun⟩ : ∃ r, op.run s.cache c = r := ⟨_, rfl⟩
      rw [hrun] at hstep
      cases hstep
      have hstream := h.streams i
      obtain ⟨⟨hbounded, hconf⟩, ⟨hcal, hpend⟩, hfailed, hdropped⟩ :=
        run_sound (hstream.cal c hc) h.cache h.confirmed (hstream.pending c op hc hop) hrun
      refine ⟨?_, fun e he hno => ⟨i, c, rfl, hc, hdropped e he hno⟩⟩
      have hnext :
        Sound build { s with cache := cache', assertFailed := s.assertFailed || failed } :=
        ⟨hbounded, hconf, h.streams, h.once, h.sane, by rw [hfailed, h.assert]; rfl⟩
      refine hnext.setStream ⟨hstream.shapes, hstream.stops, fun c'' hc'' => ?_,
        fun c'' op' hc'' hop' => ?_⟩
      · cases hc''
        exact hcal.congr rfl rfl rfl
      · cases hc''
        exact hpend op' hop'
    · cases hstep

/-! ## Every run -/

/-- **Only confirmed hotspots are served.** Whatever streams there are and however their steps fall,
in every state that is reached: the hotspot a stream serves is the wire's, or one that a stream
measured for that id under that generation and measured again within the tolerance, against another
sample of the pointer under the same mapping and at another stop of the plane; a shape is measured
at most once at a stop; the assertion of `apply_confirmed_hotspot` has not failed; the cache is
within its capacity, and a step takes an entry away, or puts another in its place, only for a stream
of the entry's generation or a newer one. A release build compares with wrapping differences, and
relies on `measure_hotspot` for values that are not negative. -/
theorem served_hotspots_confirmed (build : Build)
    (measure : CalContext → Pos → Pos → ℤ × ℤ → Option Hotspot) (hmeasure : Measures build measure)
    (as : List Act) (s : State) (hexec : exec (step build measure) .init as = some s) :
    (∀ i c, (s.streams i).cal = some c →
      c.currentHot = c.wireHot ∨ Confirmed s.measured c.id c.ctx.builtGen c.currentHot) ∧
    (s.measured.Pairwise fun r r' =>
      ¬ (r.stream = r'.stream ∧ r.shape = r'.shape ∧ r.stop = r'.stop)) ∧
    s.assertFailed = false ∧ s.cache.length ≤ cursorCalCacheCap ∧
    ∀ a s', step build measure s a = some s' → ∀ id e, s.cache.lookup id = some e →
      s'.cache.lookup id ≠ some e →
      ∃ i c, a = .cache i ∧ (s.streams i).cal = some c ∧ e.2 ≤ c.ctx.builtGen := by
  have hsound : Sound build s :=
    exec_invariant (fun s a s' h hstep => (h.step hmeasure hstep).1) (sound_init build) hexec
  refine ⟨fun i c hc => ((hsound.streams i).cal c hc).served, hsound.once, hsound.assert,
    hsound.cache.length, ?_⟩
  intro a s' hstep id e he hno
  obtain ⟨hsound', hdropped⟩ := hsound.step hmeasure hstep
  exact hdropped (id, e) ((lookup_iff hsound.cache).mp he) fun he' =>
    hno ((lookup_iff hsound'.cache).mpr he')

/-- `measure_hotspot` where the output's logical and physical sizes are the same. -/
def measureUnscaled (ctx : CalContext) (injected plane : Pos) (size : ℤ × ℤ) : Option Hotspot :=
  let (ax, ay, aw, ah) := ctx.rect
  if injected.1 < ax ∨ ax + aw ≤ injected.1 ∨ injected.2 < ay ∨ ay + ah ≤ injected.2 then none
  else
    let h := (injected.1 - ax - plane.1, injected.2 - ay - plane.2)
    if h.1 < 0 ∨ h.2 < 0 ∨ size.1 ≤ h.1 ∨ size.2 ≤ h.2 then none else some h

/-- A stream that shows a shape of 24 by 24 pixels and finds the pointer twice at (5, 6) of it. -/
def confirmingRun : List Act :=
  let frame (p : Pos) (sample : PeerAbsSample) : Act := .plane 0 (some p) (some sample) false 1 1 1
  let first : PeerAbsSample :=
    { pos := (105, 106), ageMs := 200, seq := 1, gen := 1, mapEpoch := 1 }
  let second : PeerAbsSample :=
    { pos := (205, 207), ageMs := 200, seq := 2, gen := 1, mapEpoch := 1 }
  .shape 0 (some { rect := (0, 0, 1920, 1080), physicalSize := (1920, 1080), builtGen := 1 })
    7 24 24 0 0 false 0 ::
    List.replicate 4 (frame (100, 100) first) ++ List.replicate 4 (frame (200, 200) second) ++
      [.cache 0]

theorem measureUnscaled_measures : Measures .release measureUnscaled := by
  intro ctx injected plane w h v hv
  have hbound : ∀ n, CursorHotspot.asI32 n < 2147483648 := fun n => by
    unfold CursorHotspot.asI32
    omega
  have hw := hbound w
  have hh := hbound h
  unfold measureUnscaled at hv
  dsimp only at hv
  split at hv
  · cases hv
  split at hv
  · cases hv
  next hin =>
  cases hv
  exact .inr ⟨by dsimp only at hin ⊢; omega, by dsimp only at hin ⊢; omega⟩

theorem served_hotspots_confirmed_run :
    ∃ s, exec (step .release measureUnscaled) .init confirmingRun = some s ∧
    (s.streams 0).cal.map CursorCal.currentHot = some (5, 6) ∧ Confirmed s.measured 7 1 (5, 6) := by
  refine ⟨_, rfl, rfl, ?_⟩
  have hserved :=
    (served_hotspots_confirmed .release measureUnscaled measureUnscaled_measures confirmingRun _
      rfl).1 0 _ rfl
  exact hserved.resolve_left (by decide)

end BgDesk.CursorCalibration
