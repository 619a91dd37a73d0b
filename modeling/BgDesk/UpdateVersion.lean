import Mathlib.Data.List.Lex
import BgDesk.UpdateFeed
import BgDesk.VersionNumber

/-!
# Update versions and update addresses

What `update_source.rs` accepts, exactly. A version of an update is three numbers, with a revision
after a dash unless that is zero, each written as numbers are written and below 2¹⁶; so there is one
text for each version, and the order of the texts is the order of the numbers. The address of a
release is a fixed start and a version, and that of a download has a name behind it that cannot lead
elsewhere.

* `UpdateVersion` — the versions, and `parseUpdateVersion_ok`: the texts that are accepted are
  theirs;
* `update_version_grammar` — the grammar, the order, and the addresses of releases;
* `download_file_name_pinned` — the addresses of downloads.
-/

namespace BgDesk
namespace Update

/-- `is_newer_update`: arrays are compared lexicographically. -/
def isNewerUpdate (candidate installed : String) : Except Error Bool := do
  let candidate ← parseUpdateVersion candidate
  let installed ← parseUpdateVersion installed
  .ok (decide (installed < candidate))

/-! ## Texts that are cut -/

section
variable {c : Char} {s a b : List Char}

theorem splitOnce_append (h : c ∉ a) : splitOnce c (a ++ c :: b) = some (a, b) := by
  have hkept : ∀ x ∈ a, decide (x ≠ c) = true := fun x hx =>
    decide_eq_true (ne_of_mem_of_not_mem hx h)
  have hstop : ¬decide (c ≠ c) = true := by simp
  rw [splitOnce, if_pos (by simp), List.takeWhile_append_of_pos hkept,
    List.takeWhile_cons_of_neg (p := fun x => decide (x ≠ c)) hstop,
    List.dropWhile_append_of_pos hkept, List.dropWhile_cons_of_neg (p := fun x => decide (x ≠ c))
      hstop, List.append_nil, List.tail_cons]

theorem splitOnce_none (h : c ∉ s) : splitOnce c s = none := if_neg h

theorem rsplitOnce_append (h : c ∉ b) : rsplitOnce c (a ++ c :: b) = some (a, b) := by
  have hreverse : (a ++ c :: b).reverse = b.reverse ++ c :: a.reverse := by
    rw [List.reverse_append, List.reverse_cons, List.append_assoc, List.singleton_append]
  rw [rsplitOnce, hreverse, splitOnce_append (by rwa [List.mem_reverse]), Option.map_some,
    List.reverse_reverse,
    List.reverse_reverse]

theorem rsplitOnce_none (h : c ∉ s) : rsplitOnce c s = none := by
  rw [rsplitOnce, splitOnce_none (by rwa [List.mem_reverse]), Option.map_none]

/-- The last place of a character. -/
theorem exists_last_of_mem (h : c ∈ s) : ∃ a b, s = a ++ c :: b ∧ c ∉ b := by
  obtain ⟨b, a, hreverse, hnot⟩ := List.eq_append_cons_of_mem (List.mem_reverse.mpr h)
  refine ⟨a.reverse, b.reverse, ?_, by rwa [List.mem_reverse]⟩
  rw [← List.reverse_reverse s, hreverse, List.reverse_append, List.reverse_cons, List.append_assoc,
    List.singleton_append]

theorem stripPrefix_eq_some {p r : List Char} : stripPrefix p s = some r ↔ s = p ++ r := by
  rw [stripPrefix]
  constructor
  · intro h
    split at h
    · next hp =>
      obtain ⟨t, rfl⟩ := List.isPrefixOf_iff_prefix.mp hp
      rw [List.drop_left] at h
      rw [Option.some.inj h]
    · cases h
  · rintro rfl
    rw [if_pos (List.isPrefixOf_iff_prefix.mpr (List.prefix_append p r)), List.drop_left]

end

/-! ## Numbers as they are written -/

/-- A number that is written as numbers are, of 16 bits. -/
structure Numeral (x : VersionNumber.Component) : Prop where
  canonical : x.digits = Nat.toDigits 10 x.value
  bounded : x.value < 2 ^ 16

theorem digitChar_of_isDigit {c : Char} (h : c.isDigit = true) :
    c.toNat - '0'.toNat < 10 ∧ Nat.toDigits 10 (c.toNat - '0'.toNat) = [c] := by
  have hall : ∀ n < 10, Nat.toDigits 10 n = [Char.ofNat ('0'.toNat + n)] := by decide
  obtain ⟨hlow, hhigh⟩ : 48 ≤ c.toNat ∧ c.toNat ≤ 57 := by
    rw [Char.isDigit, Bool.and_eq_true] at h
    exact ⟨UInt32.le_iff_toNat_le.mp (of_decide_eq_true h.1),
      UInt32.le_iff_toNat_le.mp (of_decide_eq_true h.2)⟩
  have hzero : '0'.toNat = 48 := rfl
  have hlt : c.toNat - '0'.toNat < 10 := by omega
  have hc : Char.ofNat ('0'.toNat + (c.toNat - '0'.toNat)) = c := by
    rw [Nat.add_sub_cancel' (by omega)]
    exact Char.ofNat_toNat c
  exact ⟨hlt, (hall _ hlt).trans (by rw [hc])⟩

/-- Without a zero in front, digits are those of their number. -/
theorem toDigits_ofDigitChars {s : List Char} (hne : s ≠ []) (hdigits : ∀ c ∈ s, c.isDigit = true)
    (hzero : ¬(1 < s.length ∧ s.head? = some '0')) :
    Nat.toDigits 10 (Nat.ofDigitChars 10 s 0) = s := by
  induction s using List.reverseRecOn with
  | nil => exact absurd rfl hne
  | append_singleton front c ih =>
    have hc := digitChar_of_isDigit (hdigits c List.mem_concat_self)
    have hvalue : Nat.ofDigitChars 10 (front ++ [c]) 0 = 10 * Nat.ofDigitChars 10 front 0 +
        (c.toNat - '0'.toNat) := by
      rw [Nat.ofDigitChars_append, Nat.ofDigitChars_cons, Nat.ofDigitChars_nil]
    by_cases hfront : front = []
    · rw [hvalue, hfront, Nat.ofDigitChars_nil, Nat.mul_zero, Nat.zero_add, hc.2]
      rfl
    · have hhead : front.head? ≠ some '0' := by
        intro hhead
        refine hzero ⟨?_, ?_⟩
        · have hpos := List.length_pos_of_ne_nil hfront
          rw [List.length_append, List.length_singleton]
          omega
        · rw [List.head?_append_of_ne_nil _ hfront, hhead]
      have hdigits' := ih hfront (fun d hd => hdigits d (List.mem_append_left _ hd))
        (fun h => hhead h.2)
      have hpos : 0 < Nat.ofDigitChars 10 front 0 := by
        refine Nat.pos_of_ne_zero fun hnull => hhead ?_
        rw [hnull] at hdigits'
        rw [← hdigits']
        rfl
      rw [hvalue, ← Nat.toDigits_append_toDigits (by decide) hpos hc.1, hdigits', hc.2]

/-- No number but zero starts with a zero. -/
theorem head?_toDigits {n : ℕ} (h : 0 < n) : (Nat.toDigits 10 n).head? ≠ some '0' := by
  induction n using Nat.strong_induction_on with
  | _ n ih =>
    by_cases hlt : n < 10
    · have hall : ∀ n < 10, 0 < n → (Nat.toDigits 10 n).head? ≠ some '0' := by decide
      exact hall n hlt h
    · rw [Nat.toDigits_of_base_le (by decide) (by omega),
        List.head?_append_of_ne_nil _ Nat.toDigits_ne_nil]
      exact ih (n / 10) (by omega) (by omega)

theorem value_eq (x : VersionNumber.Component) :
    x.digits.foldl (fun n c => 10 * n + (c.toNat - '0'.toNat)) 0 = x.value := rfl

variable {downloadUrl fileName releaseId version : String} {result : List ℕ} {build : Build}

/-- A part of a version is a number as it is written. -/
theorem versionPart_ok {value : List Char} {n : ℕ} :
    versionPart version value = .ok n ↔ ∃ x : VersionNumber.Component, Numeral x ∧
      x.digits = value ∧ x.value = n := by
  rw [versionPart]
  constructor
  · intro h
    cases hbad : value.isEmpty || !value.all Char.isDigit || decide (1 < value.length) &&
      value.head? = some '0' with
    | true =>
      rw [hbad] at h
      cases h
    | false =>
      rw [hbad] at h
      simp only [Bool.or_eq_false_iff, List.isEmpty_eq_false_iff, Bool.not_eq_false',
        List.all_eq_true, Bool.and_eq_false_iff,
        decide_eq_false_iff_not] at hbad
      obtain ⟨⟨hne, hdigits⟩, hzero⟩ := hbad
      let x : VersionNumber.Component := ⟨value, hne, hdigits⟩
      change (if x.value < 2 ^ 16 then Except.ok x.value else Except.error Error.library) = _ at h
      split at h
      · next hlt =>
        exact ⟨x, ⟨(toDigits_ofDigitChars hne hdigits (by tauto)).symm, hlt⟩, rfl, Except.ok.inj h⟩
      · cases h
  · rintro ⟨x, hx, rfl, rfl⟩
    have hgood :
      (x.digits.isEmpty || !x.digits.all Char.isDigit || decide (1 < x.digits.length) &&
        x.digits.head? = some '0') =
        false := by
      have hzero : 1 < x.digits.length → x.digits.head? ≠ some '0' := by
        intro hlen
        rw [hx.canonical]
        refine head?_toDigits (Nat.pos_of_ne_zero fun hnull => ?_)
        rw [hx.canonical, hnull] at hlen
        exact absurd hlen (by decide)
      simp only [Bool.or_eq_false_iff, List.isEmpty_eq_false_iff, Bool.not_eq_false',
        List.all_eq_true, Bool.and_eq_false_iff,
        decide_eq_false_iff_not]
      exact ⟨⟨x.ne_nil, x.isDigit⟩, by tauto⟩
    rw [hgood, value_eq]
    exact if_pos hx.bounded

theorem versionParts_ok {values : List (List Char)} {ns : List ℕ} :
    versionParts version values = .ok ns ↔
      List.Forall₂ (fun value n => ∃ x : VersionNumber.Component, Numeral x ∧ x.digits = value ∧
        x.value = n) values ns := by
  induction values generalizing ns with
  | nil =>
    rw [List.forall₂_nil_left_iff]
    exact ⟨fun h => (Except.ok.inj h).symm, fun h => h ▸ rfl⟩
  | cons value values ih =>
    rw [List.forall₂_cons_left_iff, versionParts]
    cases hvalue : versionPart version value with
    | error e =>
      constructor
      · intro h
        cases h
      · rintro ⟨n, ms, hn, -, -⟩
        rw [versionPart_ok.mpr hn] at hvalue
        cases hvalue
    | ok n =>
      cases hvalues : versionParts version values with
      | error e =>
        constructor
        · intro h
          cases h
        · rintro ⟨m, ms, -, hms, -⟩
          rw [ih.mpr hms] at hvalues
          cases hvalues
      | ok ms =>
        constructor
        · intro h
          exact ⟨n, ms, versionPart_ok.mp hvalue, ih.mp hvalues, (Except.ok.inj h).symm⟩
        · rintro ⟨m, ms', hm, hms, rfl⟩
          obtain rfl := Except.ok.inj (hvalue.symm.trans (versionPart_ok.mpr hm))
          obtain rfl := Except.ok.inj (hvalues.symm.trans (ih.mpr hms))
          rfl

/-! ## Versions -/

theorem bailIf_true {wrong : Bool} {error : Error} (h : wrong = true) :
    bailIf wrong error = .error error :=
  if_pos h

theorem bailIf_false {wrong : Bool} {error : Error} (h : wrong = false) :
    bailIf wrong error = .ok () :=
  if_neg (Bool.not_eq_true _ ▸ h)

/-- The last check of `parse_update_version`: it is not the version zero, and a revision that is
written is not zero. -/
theorem lastCheck_eq_false {x y z w : ℕ} {version : List Char} :
    (decide ([x, y, z, w].take 3 = [0, 0, 0]) || version.contains '-' &&
      decide ([x, y, z, w].getD 3 0 = 0)) = false ↔
      ¬(x = 0 ∧ y = 0 ∧ z = 0) ∧ ('-' ∈ version → w ≠ 0) := by
  simp

/-- A version of an update. -/
structure UpdateVersion (v : VersionNumber.Version) : Prop where
  a : Numeral v.a
  b : Numeral v.b
  c : Numeral v.c
  nonzero : ¬(v.a.value = 0 ∧ v.b.value = 0 ∧ v.c.value = 0)
  r : ∀ r ∈ v.r, Numeral r ∧ r.value ≠ 0

/-- The parts of a text that is accepted, once it has been cut at its first dash. -/
theorem parse_split {base revision : List Char}
    (hsplit : (splitOnce '-' version.toList).getD (version.toList, ['0']) = (base, revision)) :
    parseUpdateVersion version = .ok result ↔
      ∃ v : VersionNumber.Version, ∃ w : VersionNumber.Component, Numeral v.a ∧ Numeral v.b ∧
        Numeral v.c ∧ Numeral w ∧
        base = v.core ∧ revision = w.digits ∧ result = [v.a.value, v.b.value, v.c.value, w.value] ∧
        ¬(v.a.value = 0 ∧ v.b.value = 0 ∧ v.c.value = 0) ∧
          ('-' ∈ version.toList → w.value ≠ 0) := by
  rw [parseUpdateVersion, hsplit]
  dsimp only
  constructor
  · intro h
    by_cases hlen : (base.splitOn '.').length = 3
    · obtain ⟨p, q, s, hparts⟩ := List.length_eq_three.mp hlen
      rw [bailIf_false (by simp [hlen]), hparts] at h
      cases hall : versionParts version ([p, q, s] ++ [revision]) with
      | error e =>
        rw [hall] at h
        cases h
      | ok ns =>
        rw [hall] at h
        obtain ⟨x, xs, ⟨x, hx, rfl, rfl⟩, hxs, rfl⟩ :=
          List.forall₂_cons_left_iff.mp (versionParts_ok.mp hall)
        obtain ⟨y, ys, ⟨y, hy, rfl, rfl⟩, hys, rfl⟩ := List.forall₂_cons_left_iff.mp hxs
        obtain ⟨z, zs, ⟨z, hz, rfl, rfl⟩, hzs, rfl⟩ := List.forall₂_cons_left_iff.mp hys
        obtain ⟨w, ws, ⟨w, hw, rfl, rfl⟩, hws, rfl⟩ := List.forall₂_cons_left_iff.mp hzs
        rw [List.forall₂_nil_left_iff] at hws
        subst hws
        have hbase : base = (⟨x, y, z, none⟩ : VersionNumber.Version).core := by
          have hjoin : ['.'].intercalate (base.splitOn '.') = base := List.intercalate_splitOn '.'
          rw [hparts] at hjoin
          rw [← hjoin]
          simp [List.intercalate, VersionNumber.Version.core]
        change (bailIf _ _ >>= fun _ => Except.ok _) = _ at h
        by_cases hgood : ¬(x.value = 0 ∧ y.value = 0 ∧ z.value = 0) ∧
          ('-' ∈ version.toList → w.value ≠ 0)
        · rw [bailIf_false (lastCheck_eq_false.mpr hgood)] at h
          exact ⟨⟨x, y, z, none⟩, w, hx, hy, hz, hw, hbase, rfl, (Except.ok.inj h).symm, hgood⟩
        · rw [bailIf_true (Bool.not_eq_false _ ▸ mt lastCheck_eq_false.mp hgood)] at h
          cases h
    · rw [bailIf_true (by simp [hlen])] at h
      cases h
  · rintro ⟨v, w, ha, hb, hc, hw, rfl, rfl, rfl, hnonzero, hrevision⟩
    rw [VersionNumber.splitOn_core, bailIf_false (by simp)]
    have hall : versionParts version ([v.a.digits, v.b.digits, v.c.digits] ++ [w.digits]) =
        .ok [v.a.value, v.b.value, v.c.value, w.value] :=
      versionParts_ok.mpr (.cons ⟨_, ha, rfl, rfl⟩ (.cons ⟨_, hb, rfl, rfl⟩ (.cons ⟨_, hc, rfl, rfl⟩
        (.cons ⟨_, hw, rfl, rfl⟩ .nil))))
    change (versionParts version ([v.a.digits, v.b.digits, v.c.digits] ++ [w.digits]) >>= _) = _
    rw [hall]
    change (bailIf _ _ >>= fun _ => Except.ok _) = _
    rw [bailIf_false (lastCheck_eq_false.mpr ⟨hnonzero, hrevision⟩)]
    rfl

/-- **The grammar**: the texts that are accepted are those of the versions. -/
theorem parseUpdateVersion_ok :
    parseUpdateVersion version = .ok result ↔ ∃ v, UpdateVersion v ∧ version.toList = v.text ∧
      result = v.fields := by
  by_cases hdash : '-' ∈ version.toList
  · obtain ⟨base, revision, hversion, hbase⟩ := List.eq_append_cons_of_mem hdash
    have hsplit : splitOnce '-' version.toList = some (base, revision) := by
      rw [hversion, splitOnce_append hbase]
    have hcut : (splitOnce '-' version.toList).getD (version.toList, ['0']) = (base, revision) := by
      rw [hsplit, Option.getD_some]
    rw [parse_split hcut]
    constructor
    · rintro ⟨v, w, ha, hb, hc, hw, rfl, rfl, rfl, hnonzero, hrevision⟩
      refine ⟨{ v with r := some w }, ⟨ha, hb, hc, hnonzero, ?_⟩, hversion, rfl⟩
      rintro _ ⟨⟩
      exact ⟨hw, hrevision hdash⟩
    · rintro ⟨v, hv, htext, rfl⟩
      cases hr : v.r with
      | none =>
        rw [htext, VersionNumber.Version.text, hr] at hdash
        exact absurd hdash (VersionNumber.dash_notMem_core v)
      | some r =>
        rw [VersionNumber.Version.text, hr] at htext
        dsimp only at htext
        rw [htext, splitOnce_append (VersionNumber.dash_notMem_core v)] at hsplit
        obtain ⟨rfl, rfl⟩ := Prod.mk.inj (Option.some.inj hsplit)
        obtain ⟨hnumeral, hnonzero⟩ := hv.r r hr
        refine ⟨v, r, hv.a, hv.b, hv.c, hnumeral, rfl, rfl, ?_, hv.nonzero, fun _ => hnonzero⟩
        rw [VersionNumber.Version.fields, VersionNumber.Version.build, hr]
        rfl
  · have hsplit : (splitOnce '-' version.toList).getD (version.toList, ['0']) =
        (version.toList, ['0']) := by
      rw [splitOnce_none hdash]
      rfl
    rw [parse_split hsplit]
    constructor
    · rintro ⟨v, w, ha, hb, hc, hw, hcore, hzero, rfl, hnonzero, -⟩
      refine ⟨{ v with r := none }, ⟨ha, hb, hc, hnonzero, by rintro _ ⟨⟩⟩, hcore, ?_⟩
      have hw0 : w.value = 0 := by
        rw [VersionNumber.Component.value, ← hzero]
        rfl
      rw [hw0]
      rfl
    · rintro ⟨v, hv, htext, rfl⟩
      cases hr : v.r with
      | none =>
        rw [VersionNumber.Version.text, hr] at htext
        refine ⟨v, ⟨['0'], List.cons_ne_nil _ _, List.forall_mem_singleton.mpr rfl⟩, hv.a, hv.b,
          hv.c, ⟨by decide, by decide⟩, htext, rfl, ?_, hv.nonzero,
          fun hmem => absurd hmem hdash⟩
        rw [VersionNumber.Version.fields, VersionNumber.Version.build, hr]
        rfl
      | some r =>
        rw [VersionNumber.Version.text, hr] at htext
        refine absurd ?_ hdash
        rw [htext]
        exact List.mem_append_right _ List.mem_cons_self

/-- A version of an update has one text. -/
theorem UpdateVersion.text_eq {v v' : VersionNumber.Version} (h : UpdateVersion v)
    (h' : UpdateVersion v') (hfields : v.fields = v'.fields) : v.text = v'.text := by
  have hdigits : ∀ {x x' : VersionNumber.Component}, Numeral x → Numeral x' → x.value = x'.value →
      x.digits = x'.digits := by
    intro x x' hx hx' hvalue
    rw [hx.canonical, hx'.canonical, hvalue]
  rw [VersionNumber.Version.fields, VersionNumber.Version.fields] at hfields
  simp only [List.cons.injEq, and_true] at hfields
  obtain ⟨ha, hb, hc, hr⟩ := hfields
  have hcore : v.core = v'.core := by
    rw [VersionNumber.Version.core, VersionNumber.Version.core, hdigits h.a h'.a ha,
      hdigits h.b h'.b hb, hdigits h.c h'.c hc]
  rw [VersionNumber.Version.build, VersionNumber.Version.build] at hr
  rw [VersionNumber.Version.text, VersionNumber.Version.text, hcore]
  cases hv : v.r with
  | none =>
    cases hv' : v'.r with
    | none => rfl
    | some r' =>
      rw [hv, hv'] at hr
      exact absurd hr.symm (h'.r r' hv').2
  | some r =>
    cases hv' : v'.r with
    | none =>
      rw [hv, hv'] at hr
      exact absurd hr (h.r r hv).2
    | some r' =>
      rw [hv, hv'] at hr
      dsimp only
      rw [hdigits (h.r r hv).1 (h'.r r' hv').1 hr]

/-- A text that `parse_update_version` accepts. -/
def Accepted (version : String) : Prop := ∃ parts, parseUpdateVersion version = .ok parts

theorem parseUpdateVersion_injective {s t : String} (hs : parseUpdateVersion s = .ok result)
    (ht : parseUpdateVersion t = .ok result) : s = t := by
  obtain ⟨v, hv, hvs, rfl⟩ := parseUpdateVersion_ok.mp hs
  obtain ⟨v', hv', hvt, hfields⟩ := parseUpdateVersion_ok.mp ht
  exact String.toList_inj.mp (by rw [hvs, hvt, hv.text_eq hv' hfields])

/-- Digits, dots and dashes. -/
theorem Accepted.chars (h : Accepted version) :
    ∀ c ∈ version.toList, c.isDigit = true ∨ c = '.' ∨ c = '-' := by
  obtain ⟨parts, hparts⟩ := h
  obtain ⟨v, -, htext, -⟩ := parseUpdateVersion_ok.mp hparts
  have hcore : ∀ c ∈ v.core, c.isDigit = true ∨ c = '.' ∨ c = '-' := by
    intro c hc
    simp only [VersionNumber.Version.core, List.mem_append, List.mem_cons] at hc
    obtain hc | rfl | hc | rfl | hc := hc
    · exact .inl (v.a.isDigit c hc)
    · exact .inr (.inl rfl)
    · exact .inl (v.b.isDigit c hc)
    · exact .inr (.inl rfl)
    · exact .inl (v.c.isDigit c hc)
  rw [htext, VersionNumber.Version.text]
  intro c hc
  cases hr : v.r with
  | none =>
    rw [hr] at hc
    exact hcore c hc
  | some r =>
    rw [hr] at hc
    obtain hc | hc := List.mem_append.mp hc
    · exact hcore c hc
    · obtain rfl | hc := List.mem_cons.mp hc
      · exact .inr (.inr rfl)
      · exact .inl (r.isDigit c hc)

/-! ## The order -/

theorem isNewerUpdate_ok {candidate installed : String} {p q : List ℕ}
    (hp : parseUpdateVersion candidate = .ok p) (hq : parseUpdateVersion installed = .ok q) :
    isNewerUpdate candidate installed = .ok (decide (q < p)) := by
  rw [isNewerUpdate, hp, hq]
  rfl

theorem isNewerUpdate_true {candidate installed : String} {p q : List ℕ}
    (hp : parseUpdateVersion candidate = .ok p) (hq : parseUpdateVersion installed = .ok q) :
    isNewerUpdate candidate installed = .ok true ↔ q < p := by
  rw [isNewerUpdate_ok hp hq, Except.ok.injEq, decide_eq_true_iff]

/-- The lexicographic order of four numbers. -/
theorem four_lt_four (a b c r a' b' c' r' : ℕ) : [a, b, c, r] < [a', b', c', r'] ↔ a < a' ∨ a = a' ∧
      (b < b' ∨ b = b' ∧ (c < c' ∨ c = c' ∧ r < r')) := by
  simp [List.cons_lt_cons_iff]

/-- Of two accepted versions that are not the same, one is newer. -/
theorem newer_isStrictTotalOrder : IsStrictTotalOrder { version : String // Accepted version }
    fun candidate installed => isNewerUpdate candidate.1 installed.1 = .ok true where
  irrefl := by
    rintro ⟨s, p, hs⟩ h
    exact lt_irrefl p ((isNewerUpdate_true hs hs).mp h)
  trans := by
    rintro ⟨s, p, hs⟩ ⟨t, q, ht⟩ ⟨u, r, hu⟩ hst htu
    exact (isNewerUpdate_true hs hu).mpr (lt_trans ((isNewerUpdate_true ht hu).mp htu)
      ((isNewerUpdate_true hs ht).mp hst))
  trichotomous := by
    rintro ⟨s, p, hs⟩ ⟨t, q, ht⟩ hst hts
    rw [isNewerUpdate_true hs ht] at hst
    rw [isNewerUpdate_true ht hs] at hts
    obtain rfl : p = q := le_antisymm (not_lt.mp hst) (not_lt.mp hts)
    exact Subtype.ext (parseUpdateVersion_injective hs ht)

/-! ## The addresses of releases -/

/-- A version, perhaps with a `v` in front of it. -/
def ReleaseId (releaseId : String) : Prop :=
  ∃ version, Accepted version ∧ (releaseId = version ∨ releaseId = "v" ++ version)

theorem Accepted.notMem (h : Accepted version) {c : Char} (hdigit : c.isDigit = false)
    (hdot : c ≠ '.') (hdash : c ≠ '-') : c ∉ version.toList := by
  intro hmem
  obtain hc | rfl | rfl := h.chars c hmem
  · rw [hdigit] at hc
    cases hc
  · exact hdot rfl
  · exact hdash rfl

theorem displayVersion_stripped : displayVersionFromReleaseId releaseId = .ok version ↔
      Accepted version ∧ String.ofList ((stripPrefix ['v'] releaseId.toList).getD
        releaseId.toList) = version := by
  rw [displayVersionFromReleaseId]
  cases hparse :
    parseUpdateVersion
      (String.ofList ((stripPrefix ['v'] releaseId.toList).getD releaseId.toList)) with
  | error e =>
    constructor
    · intro h
      cases h
    · rintro ⟨⟨parts, hparts⟩, rfl⟩
      rw [hparse] at hparts
      cases hparts
  | ok parts =>
    constructor
    · intro h
      obtain rfl := Except.ok.inj h
      exact ⟨⟨parts, hparse⟩, rfl⟩
    · rintro ⟨-, rfl⟩
      rfl

theorem displayVersionFromReleaseId_ok : displayVersionFromReleaseId releaseId = .ok version ↔
      Accepted version ∧ (releaseId = version ∨ releaseId = "v" ++ version) := by
  rw [displayVersion_stripped]
  refine and_congr_right fun hversion => ?_
  cases hstrip : stripPrefix ['v'] releaseId.toList with
  | none =>
    rw [Option.getD_none, String.ofList_toList]
    refine ⟨.inl, ?_⟩
    rintro (h | rfl)
    · exact h
    · rw [String.toList_append, show "v".toList = ['v'] from rfl,
        stripPrefix_eq_some.mpr rfl] at hstrip
      cases hstrip
  | some rest =>
    have hid : releaseId.toList = ['v'] ++ rest := stripPrefix_eq_some.mp hstrip
    rw [Option.getD_some]
    constructor
    · rintro rfl
      refine .inr (String.toList_inj.mp ?_)
      rw [hid, String.toList_append, String.toList_ofList, String.toList_ofList]
    · rintro (rfl | rfl)
      · refine absurd ?_ (hversion.notMem (c := 'v') rfl (by decide) (by decide))
        rw [hid]
        exact List.mem_cons_self
      · rw [String.toList_append] at hid
        rw [← List.append_cancel_left hid, String.ofList_toList]

/-- The start of the address of every release. -/
def releaseStart (build : Build) : String := build.origin ++ "/updates/" ++ build.edition ++ "/"

theorem ReleaseId.slash_notMem (h : ReleaseId releaseId) : '/' ∉ releaseId.toList := by
  obtain ⟨version, hversion, rfl | rfl⟩ := h
  · exact hversion.notMem rfl (by decide) (by decide)
  · rw [String.toList_append]
    exact List.not_mem_append (by decide) (hversion.notMem rfl (by decide) (by decide))

theorem displayVersion_exists :
    (∃ version, displayVersionFromReleaseId releaseId = .ok version) ↔ ReleaseId releaseId :=
  exists_congr fun _ => displayVersionFromReleaseId_ok

theorem releaseIdFromUpdateUrl_ok {updateUrl : List Char} :
    releaseIdFromUpdateUrl build updateUrl = .ok releaseId ↔
      ReleaseId releaseId ∧ (updateUrl = (releaseStart build ++ releaseId).toList ∨
        updateUrl = (releaseStart build ++ releaseId ++ "/").toList) := by
  rw [releaseIdFromUpdateUrl, ← releaseStart]
  dsimp only
  cases hstrip : stripPrefix (releaseStart build).toList updateUrl with
  | none =>
    constructor
    · intro h
      cases h
    · rintro ⟨-, rfl | rfl⟩
      · rw [String.toList_append, stripPrefix_eq_some.mpr rfl] at hstrip
        cases hstrip
      · rw [String.append_assoc, String.toList_append, stripPrefix_eq_some.mpr rfl] at hstrip
        cases hstrip
  | some rest =>
    rw [stripPrefix_eq_some.mp hstrip]
    dsimp only [okOr, bind, Except.bind]
    constructor
    · intro h
      generalize hid : (if rest.getLast? = some '/' then rest.dropLast else rest) = id at h
      cases hversion : displayVersionFromReleaseId (String.ofList id) with
      | error e =>
        rw [hversion] at h
        cases h
      | ok version =>
        rw [hversion] at h
        obtain rfl := Except.ok.inj h
        refine ⟨displayVersion_exists.mp ⟨version, hversion⟩, ?_⟩
        rw [String.toList_append, String.toList_append, String.toList_append, String.toList_ofList,
          List.append_assoc]
        split at hid
        · next hlast =>
          rw [← hid]
          exact .inr (congrArg _ (List.dropLast_append_getLast? '/' hlast).symm)
        · exact .inl (congrArg _ hid)
    · rintro ⟨hid, hurl⟩
      have hrest : (if rest.getLast? = some '/' then rest.dropLast else rest) =
          releaseId.toList := by
        rw [String.toList_append, String.toList_append, String.toList_append,
          List.append_assoc] at hurl
        obtain hurl | hurl := hurl
        · obtain rfl := List.append_cancel_left hurl
          exact if_neg fun hlast => hid.slash_notMem (List.mem_of_getLast? hlast)
        · obtain rfl := List.append_cancel_left hurl
          rw [show "/".toList = ['/'] from rfl, if_pos List.getLast?_concat, List.dropLast_concat]
      obtain ⟨version, hversion⟩ := displayVersion_exists.mpr hid
      rw [hrest, String.ofList_toList, hversion]

/-- **Update versions.** The texts `parse_update_version` accepts are those of the versions, one for
each; among them, newer is a strict total order, the lexicographic one; and the address of a release
is a fixed start, a version with or without a `v`, and at most one slash. -/
theorem update_version_grammar (build : Build) :
    (∀ version result, parseUpdateVersion version = .ok result ↔
      ∃ v, UpdateVersion v ∧ version.toList = v.text ∧ result = v.fields) ∧
    (∀ s t result, parseUpdateVersion s = .ok result → parseUpdateVersion t = .ok result → s = t) ∧
    (IsStrictTotalOrder { version : String // Accepted version }
      fun candidate installed => isNewerUpdate candidate.1 installed.1 = .ok true) ∧
    (∀ s t, Accepted s → Accepted t → ∃ a b c r a' b' c' r',
      parseUpdateVersion s = .ok [a, b, c, r] ∧
      parseUpdateVersion t = .ok [a', b', c', r'] ∧
      isNewerUpdate s t = .ok (decide (a' < a ∨ a' = a ∧
        (b' < b ∨ b' = b ∧ (c' < c ∨ c' = c ∧ r' < r))))) ∧
    (∀ releaseId version, displayVersionFromReleaseId releaseId = .ok version ↔
      Accepted version ∧ (releaseId = version ∨ releaseId = "v" ++ version)) ∧
    ∀ (updateUrl : List Char) (releaseId : String),
      releaseIdFromUpdateUrl build updateUrl = .ok releaseId ↔
      (∃ version, Accepted version ∧ (releaseId = version ∨ releaseId = "v" ++ version)) ∧
        (updateUrl = (releaseStart build ++ releaseId).toList ∨
          updateUrl = (releaseStart build ++ releaseId ++ "/").toList) := by
  refine ⟨fun _ _ => parseUpdateVersion_ok, fun _ _ _ => parseUpdateVersion_injective,
    newer_isStrictTotalOrder, ?_,
    fun _ _ => displayVersionFromReleaseId_ok, fun _ _ => releaseIdFromUpdateUrl_ok⟩
  rintro s t ⟨p, hp⟩ ⟨q, hq⟩
  obtain ⟨v, -, -, rfl⟩ := parseUpdateVersion_ok.mp hp
  obtain ⟨v', -, -, rfl⟩ := parseUpdateVersion_ok.mp hq
  refine ⟨_, _, _, _, _, _, _, _, hp, hq, (isNewerUpdate_ok hp hq).trans (congrArg _ ?_)⟩
  exact decide_eq_decide.mpr (four_lt_four _ _ _ _ _ _ _ _)

/-! ## The addresses of downloads -/

/-- A name that leads nowhere else: letters, digits, dots, dashes and underscores, and neither `.`
nor `..`. -/
structure SafeName (name : List Char) : Prop where
  nonempty : name ≠ []
  dot : name ≠ ['.']
  dotDot : name ≠ ['.', '.']
  chars : ∀ c ∈ name, c.isAlphanum = true ∨ c = '.' ∨ c = '_' ∨ c = '-'

theorem safeFileName_iff {name : List Char} : safeFileName name = true ↔ SafeName name := by
  rw [safeFileName]
  simp only [Bool.not_eq_true', Bool.or_eq_false_iff, List.isEmpty_eq_false_iff,
    decide_eq_false_iff_not,
    Bool.not_eq_false', List.all_eq_true, Bool.or_eq_true, decide_eq_true_eq]
  constructor
  · rintro ⟨⟨⟨hne, hdot⟩, hdots⟩, hchars⟩
    exact ⟨hne, hdot, hdots, fun c hc => by simpa [or_assoc] using hchars c hc⟩
  · rintro ⟨hne, hdot, hdots, hchars⟩
    exact ⟨⟨⟨hne, hdot⟩, hdots⟩, fun c hc => by simpa [or_assoc] using hchars c hc⟩

theorem SafeName.slash_notMem {name : List Char} (h : SafeName name) : '/' ∉ name := by
  intro hmem
  obtain hc | hc | hc | hc := h.chars '/' hmem
  · exact absurd hc (by decide)
  · cases hc
  · cases hc
  · cases hc

/-- The two kinds of addresses. -/
inductive DownloadUrl (build : Build) (fileName : String) : String → Prop where
  | root : ("bgdesk-" ++ build.edition ++ "-").toList <+: fileName.toList →
      DownloadUrl build fileName (build.origin ++ "/" ++ fileName)
  | release : (releaseId : String) → ReleaseId releaseId →
      DownloadUrl build fileName (build.origin ++ "/updates/" ++ build.edition ++ "/" ++
        releaseId ++ "/" ++ fileName)

theorem DownloadUrl.splits (h : DownloadUrl build fileName downloadUrl) :
    ∃ release, downloadUrl.toList = release ++ '/' :: fileName.toList := by
  cases h with
  | root => exact ⟨build.origin.toList, by simp⟩
  | release releaseId =>
    refine ⟨(releaseUrl build releaseId).toList, ?_⟩
    rw [releaseUrl, String.toList_append, String.toList_append (s := _ ++ releaseId),
      List.append_assoc]
    rfl

/-- **Downloads are pinned**: a name is taken from the two kinds of addresses, and from no other
text. -/
theorem downloadFileName_ok :
    downloadFileName build downloadUrl = some fileName ↔ SafeName fileName.toList ∧
      DownloadUrl build fileName downloadUrl := by
  by_cases hslash : '/' ∈ downloadUrl.toList
  · obtain ⟨release, name, hurl, hname⟩ := exists_last_of_mem hslash
    have hsplit : rsplitOnce '/' downloadUrl.toList = some (release, name) := by
      rw [hurl, rsplitOnce_append hname]
    rw [downloadFileName, hsplit, Option.bind_eq_bind, Option.bind_some]
    dsimp only
    constructor
    · intro h
      split at h
      · cases h
      · next hsafe =>
        rw [Bool.not_eq_true', Bool.not_eq_false] at hsafe
        split at h
        · next hroot =>
          obtain rfl := Option.some.inj h
          rw [Bool.and_eq_true, decide_eq_true_iff] at hroot
          have hdownload : downloadUrl = build.origin ++ "/" ++ String.ofList name := by
            rw [← String.toList_inj, hurl, hroot.1]
            simp
          rw [hdownload, String.toList_ofList]
          exact ⟨safeFileName_iff.mp hsafe,
            .root (by rw [String.toList_ofList]; exact List.isPrefixOf_iff_prefix.mp hroot.2)⟩
        · obtain ⟨releaseId, hid, h⟩ := Option.bind_eq_some_iff.mp h
          split at h
          · next hcanonical =>
            obtain rfl := Option.some.inj h
            rw [hcanonical, String.toList_ofList]
            refine ⟨safeFileName_iff.mp hsafe, .release releaseId ?_⟩
            cases hrelease : releaseIdFromUpdateUrl build release with
            | error e =>
              rw [hrelease] at hid
              cases hid
            | ok id =>
              rw [hrelease] at hid
              obtain rfl := Option.some.inj hid
              exact (releaseIdFromUpdateUrl_ok.mp hrelease).1
          · cases h
    · rintro ⟨hsafe, hkind⟩
      obtain ⟨release', hrelease⟩ := hkind.splits
      rw [hrelease, rsplitOnce_append hsafe.slash_notMem] at hsplit
      obtain ⟨rfl, rfl⟩ := Prod.mk.inj (Option.some.inj hsplit)
      rw [if_neg (by rw [safeFileName_iff.mpr hsafe]; decide), String.ofList_toList]
      split
      · rfl
      · next hroot =>
        cases hkind with
        | root hbegins =>
          rw [String.toList_append, String.toList_append, List.append_assoc] at hrelease
          have horigin : build.origin.toList = release' := List.append_cancel_right hrelease
          refine absurd ?_ hroot
          rw [Bool.and_eq_true, decide_eq_true_iff]
          exact ⟨horigin.symm, List.isPrefixOf_iff_prefix.mpr hbegins⟩
        | release releaseId hid =>
          have hstart : (releaseStart build ++ releaseId).toList = release' := by
            rw [String.toList_append, String.toList_append (s := _ ++ releaseId),
              List.append_assoc] at hrelease
            exact List.append_cancel_right hrelease
          have hok : releaseIdFromUpdateUrl build release' = .ok releaseId :=
            releaseIdFromUpdateUrl_ok.mpr ⟨hid, .inl hstart.symm⟩
          rw [hok]
          exact if_pos rfl
  · rw [downloadFileName, rsplitOnce_none hslash, Option.bind_eq_bind, Option.bind_none]
    refine ⟨by rintro ⟨⟩, fun h => absurd ?_ hslash⟩
    obtain ⟨release, hrelease⟩ := h.2.splits
    rw [hrelease]
    exact List.mem_append_right _ List.mem_cons_self

theorem Accepted.safeName (h : Accepted version) : SafeName version.toList := by
  have hdigit : ∃ c ∈ version.toList, c ≠ '.' := by
    obtain ⟨parts, hparts⟩ := h
    obtain ⟨v, -, htext, -⟩ := parseUpdateVersion_ok.mp hparts
    obtain ⟨c, hc⟩ := List.exists_mem_of_ne_nil _ v.a.ne_nil
    refine ⟨c, ?_, fun hdot => v.a.notMem (c := '.') rfl (hdot ▸ hc)⟩
    have hcore : c ∈ v.core := List.mem_append_left _ hc
    rw [htext, VersionNumber.Version.text]
    split
    · exact hcore
    · exact List.mem_append_left _ hcore
  obtain ⟨c, hc, hne⟩ := hdigit
  refine ⟨List.ne_nil_of_mem hc, ?_, ?_, fun c hc => ?_⟩
  · intro hdot
    rw [hdot] at hc
    exact hne (List.mem_singleton.mp hc)
  · intro hdots
    rw [hdots] at hc
    exact hne (by simpa using hc)
  · obtain hc | hc | hc := h.chars c hc
    · exact .inl (by rw [Char.isAlphanum, hc, Bool.or_true])
    · exact .inr (.inl hc)
    · exact .inr (.inr (.inr hc))

theorem ReleaseId.safeName (h : ReleaseId releaseId) : SafeName releaseId.toList := by
  obtain ⟨version, hversion, rfl | rfl⟩ := h
  · exact hversion.safeName
  · have hsafe := hversion.safeName
    rw [String.toList_append]
    refine ⟨List.append_ne_nil_of_right_ne_nil _ hsafe.nonempty, ?_, ?_, fun c hc => ?_⟩
    · intro hdot
      cases (List.cons.inj hdot).1
    · intro hdots
      cases (List.cons.inj hdots).1
    · obtain hc | hc := List.mem_append.mp hc
      · obtain rfl := List.mem_singleton.mp hc
        exact .inl (by decide)
      · exact hsafe.chars c hc

theorem Build.edition_safeName (build : Build) : SafeName build.edition.toList := by
  rw [Build.edition]
  split
  · exact safeFileName_iff.mp (by decide)
  · exact safeFileName_iff.mp (by decide)

/-- Behind the origin, there are names that lead nowhere else, each with one slash in front of it.
-/
theorem DownloadUrl.segments (h : DownloadUrl build fileName downloadUrl)
    (hsafe : SafeName fileName.toList) :
    ∃ names : List (List Char), (∀ name ∈ names, SafeName name) ∧
      downloadUrl.toList = build.origin.toList ++ names.flatMap (fun name => '/' :: name) := by
  cases h with
  | root =>
    refine ⟨[fileName.toList], List.forall_mem_singleton.mpr hsafe, ?_⟩
    simp
  | release releaseId hid =>
    refine ⟨["updates".toList, build.edition.toList, releaseId.toList, fileName.toList], ?_, ?_⟩
    · simp only [List.forall_mem_cons, List.not_mem_nil, false_implies, implies_true, and_true]
      exact ⟨safeFileName_iff.mp (by decide), build.edition_safeName, hid.safeName, hsafe⟩
    · simp

/-- **Download addresses.** A name is taken from a text if and only if it leads nowhere else and the
text is one of the two kinds of addresses; so the text goes on behind the origin with names that
lead nowhere else, and has no query, no fragment, no user and no empty or dotted part there. -/
theorem download_file_name_pinned (build : Build) (downloadUrl fileName : String) :
    (downloadFileName build downloadUrl = some fileName ↔
      SafeName fileName.toList ∧
        (("bgdesk-" ++ build.edition ++ "-").toList <+: fileName.toList ∧
          downloadUrl = build.origin ++ "/" ++ fileName ∨
          ∃ releaseId version, Accepted version ∧
            (releaseId = version ∨ releaseId = "v" ++ version) ∧
            downloadUrl = build.origin ++ "/updates/" ++ build.edition ++ "/" ++ releaseId ++ "/" ++
              fileName)) ∧
      (downloadFileName build downloadUrl = some fileName → ∃ names : List (List Char),
        (∀ name ∈ names, SafeName name) ∧
        downloadUrl.toList = build.origin.toList ++ names.flatMap (fun name => '/' :: name)) := by
  constructor
  · rw [downloadFileName_ok]
    refine and_congr_right fun _ => ?_
    constructor
    · rintro (hbegins | ⟨releaseId, version, hversion, hid⟩)
      · exact .inl ⟨hbegins, rfl⟩
      · exact .inr ⟨releaseId, version, hversion, hid, rfl⟩
    · rintro (⟨hbegins, rfl⟩ | ⟨releaseId, version, hversion, hid, rfl⟩)
      · exact .root hbegins
      · exact .release releaseId ⟨version, hversion, hid⟩
  · intro h
    obtain ⟨hsafe, hkind⟩ := downloadFileName_ok.mp h
    exact hkind.segments hsafe

end Update
end BgDesk
