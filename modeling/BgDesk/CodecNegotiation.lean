import Mathlib.Algebra.Group.Nat.Defs
import Mathlib.Data.List.AList
import Mathlib.Data.List.Perm.Basic
import BgDesk.Machine
import BgDesk.Frequency

/-!
# Which codec to send

`Encoder::update` in `scrap/src/common/codec.rs`. Whenever a viewer comes, goes or changes its mind,
the host looks for a codec that all viewers decode and that it can encode: the one most of them
prefer, or else one of its own choice. The viewers are in a `HashMap`, and come in the order in
which it happens to list them.

* `negotiate` — the choice; `update` makes it after every change;
* `Negotiated` — what is asked of it, in terms of what viewers say and of what the host can do;
* `codec_negotiated` — every run.
-/

namespace BgDesk
namespace Codec

/-- `PreferCodec`. -/
inductive PreferCodec where
  | auto
  | vp9
  | h264
  | h265
  | vp8
  | av1
  deriving DecidableEq

namespace PreferCodec

/-- The number of a preference in a message. -/
def value : PreferCodec → Int32
  | .auto => 0
  | .vp9 => 1
  | .h264 => 2
  | .h265 => 3
  | .vp8 => 4
  | .av1 => 5

/-- `enum_value_or`: a number that stands for no preference is replaced. -/
def enumValueOr (v : Int32) (default : PreferCodec) : PreferCodec :=
  ([.auto, .vp9, .h264, .h265, .vp8, .av1].find? fun p => value p = v).getD default

end PreferCodec

/-- `CodecFormat`. -/
inductive CodecFormat where
  | vp8
  | vp9
  | av1
  | h264
  | h265
  | unknown
  deriving DecidableEq

/-- `SupportedDecoding`, without its chroma formats. -/
structure SupportedDecoding where
  abilityVp9 : Int32
  abilityH264 : Int32
  abilityH265 : Int32
  prefer : Int32
  abilityVp8 : Int32
  abilityAv1 : Int32
  deriving DecidableEq

/-- `SupportedEncoding`, without its chroma formats. -/
structure SupportedEncoding where
  h264 : Bool
  h265 : Bool
  vp8 : Bool
  av1 : Bool
  deriving DecidableEq

/-- `EncodingUpdate`. -/
inductive EncodingUpdate where
  | update : (id : Int32) → SupportedDecoding → EncodingUpdate
  | remove : (id : Int32) → EncodingUpdate
  | newOnlyVP9 : (id : Int32) → EncodingUpdate
  | check : EncodingUpdate
  deriving DecidableEq

/-- What the host has at the time of a call: the encoders that are there and switched on, the option
`av1-test`, and its memory. -/
structure Host where
  disableAv1 : Bool
  enableVramOption : Bool
  vramH264 : ℕ
  vramH265 : ℕ
  enableHwcodecOption : Bool
  hwH264 : Option String
  hwH265 : Option String
  av1Test : String
  totalMemory : ℕ
  deriving DecidableEq

/-! ## The choice -/

section Choice

variable (host : Host) (decodings : List SupportedDecoding)

/-- All viewers have an ability, and there are some. -/
def allSupport (ability : SupportedDecoding → Int32) : Bool :=
  decodings.length > 0 && decodings.all fun s => ability s > 0

def vp8Useable : Bool := allSupport decodings (·.abilityVp8)

def av1Useable : Bool := allSupport decodings (·.abilityAv1) && !host.disableAv1

def h264vramEncoding : Bool :=
  host.enableVramOption && (allSupport decodings (·.abilityH264) && host.vramH264 > 0)

def h265vramEncoding : Bool :=
  host.enableVramOption && (allSupport decodings (·.abilityH265) && host.vramH265 > 0)

def h264hwEncoding : Option String :=
  if host.enableHwcodecOption && allSupport decodings (·.abilityH264) then host.hwH264 else none

def h265hwEncoding : Option String :=
  if host.enableHwcodecOption && allSupport decodings (·.abilityH265) then host.hwH265 else none

def h264Useable : Bool :=
  allSupport decodings (·.abilityH264) && (h264vramEncoding host decodings ||
    (h264hwEncoding host decodings).isSome)

def h265Useable : Bool :=
  allSupport decodings (·.abilityH265) && (h265vramEncoding host decodings ||
    (h265hwEncoding host decodings).isSome)

/-- The preferences that count. -/
def preferences : List Int32 :=
  (decodings.filter fun s =>
    s.prefer = PreferCodec.vp9.value
      || s.prefer = PreferCodec.vp8.value && vp8Useable decodings
      || s.prefer = PreferCodec.av1.value && av1Useable host decodings
      || s.prefer = PreferCodec.h264.value && h264Useable host decodings
      || s.prefer = PreferCodec.h265.value && h265Useable host decodings).map (·.prefer)

/-- auto: h265 > h264 > av1/vp9/vp8 -/
def autoCodec : CodecFormat :=
  let auto := if av1Useable host decodings && host.av1Test ≠ "N" then CodecFormat.av1 else .vp9
  let auto := if h264Useable host decodings then .h264 else auto
  let auto := if h265Useable host decodings then .h265 else auto
  if auto = .vp9 ∨ auto = .av1 then
    if vp8Useable decodings && host.totalMemory ≤ 4 * 1024 * 1024 * 1024 then .vp8 else auto
  else auto

/-- The format and the usable encodings. -/
def negotiate : CodecFormat × SupportedEncoding :=
  let most := (mostFrequent (preferences host decodings)).getD PreferCodec.auto.value
  let format :=
    match PreferCodec.enumValueOr most .auto with
    | .vp8 => .vp8
    | .vp9 => .vp9
    | .av1 => .av1
    | .h264 =>
      if h264vramEncoding host decodings || (h264hwEncoding host decodings).isSome then .h264
      else autoCodec host decodings
    | .h265 =>
      if h265vramEncoding host decodings || (h265hwEncoding host decodings).isSome then .h265
      else autoCodec host decodings
    | .auto => autoCodec host decodings
  (format, ⟨h264Useable host decodings, h265Useable host decodings, vp8Useable decodings,
    av1Useable host decodings⟩)

end Choice

/-! ## The calls -/

/-- `PEER_DECODINGS`, `ENCODE_CODEC_FORMAT` and `USABLE_ENCODING`. -/
structure State where
  decodings : AList (fun _ : Int32 => SupportedDecoding)
  format : CodecFormat
  usable : Option SupportedEncoding

/-- A call of `Encoder::update`: the host at that time, and the viewers in the order in which the
map lists them. -/
structure Act where
  update : EncodingUpdate
  host : Host
  order : List SupportedDecoding

namespace State

def start : State := ⟨∅, .vp9, none⟩

/-- The viewers after a change. -/
def change (decodings : AList (fun _ : Int32 => SupportedDecoding)) :
    EncodingUpdate → AList (fun _ : Int32 => SupportedDecoding)
  | .update id decoding => decodings.insert id decoding
  | .remove id => decodings.erase id
  | .newOnlyVP9 id => decodings.insert id ⟨1, 0, 0, 0, 0, 0⟩
  | .check => decodings

/-- What the viewers say, in some order. -/
def values (decodings : AList (fun _ : Int32 => SupportedDecoding)) : List SupportedDecoding :=
  decodings.entries.map Sigma.snd

/-- `Encoder::update`. -/
def update (s : State) (a : Act) : Option State :=
  let decodings := change s.decodings a.update
  if a.order.Perm (values decodings) then
    let (format, usable) := negotiate a.host a.order
    some ⟨decodings, format, some usable⟩
  else none

end State

/-! ## What is asked of the choice -/

/-- A viewer says that it decodes a codec. -/
def SupportedDecoding.Decodes (d : SupportedDecoding) : CodecFormat → Prop
  | .vp8 => d.abilityVp8 > 0
  | .vp9 => d.abilityVp9 > 0
  | .av1 => d.abilityAv1 > 0
  | .h264 => d.abilityH264 > 0
  | .h265 => d.abilityH265 > 0
  | .unknown => False

/-- The host can encode a codec. -/
def Host.CanEncode (host : Host) : CodecFormat → Prop
  | .vp8 => True
  | .vp9 => True
  | .av1 => host.disableAv1 = false
  | .h264 =>
    host.enableVramOption = true ∧ host.vramH264 > 0 ∨ host.enableHwcodecOption = true ∧
      host.hwH264.isSome = true
  | .h265 =>
    host.enableVramOption = true ∧ host.vramH265 > 0 ∨ host.enableHwcodecOption = true ∧
      host.hwH265.isSome = true
  | .unknown => False

/-- A codec for everybody. -/
def Usable (host : Host) (decodings : List SupportedDecoding) (c : CodecFormat) : Prop :=
  (∀ d ∈ decodings, d.Decodes c) ∧ host.CanEncode c

/-- The preference for a codec. -/
def CodecFormat.preference : CodecFormat → Option PreferCodec
  | .vp8 => some .vp8
  | .vp9 => some .vp9
  | .av1 => some .av1
  | .h264 => some .h264
  | .h265 => some .h265
  | .unknown => none

/-- How many viewers state a preference for a codec. -/
def supporters (decodings : List SupportedDecoding) (c : CodecFormat) : ℕ :=
  decodings.countP fun d => c.preference.any fun p => p.value = d.prefer

open Classical in
/-- The choice of the host: the hardware codecs first; with little memory the one that needs least.
-/
noncomputable def automatic (host : Host) (decodings : List SupportedDecoding) : CodecFormat :=
  if Usable host decodings .h265 then .h265
  else if Usable host decodings .h264 then .h264
  else if Usable host decodings .vp8 ∧ host.totalMemory ≤ 2 ^ 32 then .vp8
  else if Usable host decodings .av1 ∧ host.av1Test ≠ "N" then .av1
  else .vp9

/-- What is asked of the choice when there are viewers. -/
structure Negotiated (host : Host) (decodings : List SupportedDecoding) (format : CodecFormat)
    (encoding : SupportedEncoding) : Prop where
  usable : Usable host decodings format
  preferred : (∃ c, Usable host decodings c ∧ 0 < supporters decodings c) →
    0 < supporters decodings format ∧ ∀ c, Usable host decodings c →
      supporters decodings c ≤ supporters decodings format
  automatic : (∀ c, Usable host decodings c → supporters decodings c = 0) →
    format = automatic host decodings
  h264 : encoding.h264 = true ↔ Usable host decodings .h264
  h265 : encoding.h265 = true ↔ Usable host decodings .h265
  vp8 : encoding.vp8 = true ↔ Usable host decodings .vp8
  av1 : encoding.av1 = true ↔ Usable host decodings .av1

/-- There is at most one most frequent preference among those for a codec for everybody. -/
def UniquePreference (host : Host) (decodings : List SupportedDecoding) : Prop :=
  ∀ c c', Usable host decodings c → Usable host decodings c' → 0 < supporters decodings c →
    0 < supporters decodings c' →
    (∀ d, Usable host decodings d → supporters decodings d ≤ supporters decodings c) →
    (∀ d, Usable host decodings d → supporters decodings d ≤ supporters decodings c') → c = c'

/-! ## The choice meets it -/

section Choice

variable {host : Host} {decodings : List SupportedDecoding}

theorem allSupport_iff (hne : decodings ≠ []) {ability : SupportedDecoding → Int32} :
    allSupport decodings ability = true ↔ ∀ d ∈ decodings, ability d > 0 := by
  rw [allSupport, Bool.and_eq_true, List.all_eq_true]
  constructor
  · exact fun h d hd => of_decide_eq_true (h.2 d hd)
  · exact fun h =>
      ⟨decide_eq_true (List.length_pos_iff.mpr hne), fun d hd => decide_eq_true (h d hd)⟩

theorem vp8Useable_iff (host : Host) (hne : decodings ≠ []) :
    vp8Useable decodings = true ↔ Usable host decodings .vp8 := by
  rw [vp8Useable, allSupport_iff hne]
  exact (and_iff_left True.intro).symm

theorem av1Useable_iff (hne : decodings ≠ []) :
    av1Useable host decodings = true ↔ Usable host decodings .av1 := by
  rw [av1Useable, Bool.and_eq_true, allSupport_iff hne, Bool.not_eq_true']
  rfl

/-- The encoders count only if all viewers decode what they produce. -/
theorem h264Encoding_iff (hne : decodings ≠ []) :
    (h264vramEncoding host decodings || (h264hwEncoding host decodings).isSome) = true ↔
      Usable host decodings .h264 := by
  rw [h264vramEncoding, h264hwEncoding, Usable]
  have hall : allSupport decodings (·.abilityH264) = true ↔ _ := allSupport_iff hne
  simp only [SupportedDecoding.Decodes, Host.CanEncode, ← hall]
  by_cases h : allSupport decodings (·.abilityH264) = true
  · simp only [h, Bool.true_and, Bool.and_true, true_and]
    cases host.enableHwcodecOption <;> simp
  · simp [Bool.eq_false_iff.mpr h]

theorem h265Encoding_iff (hne : decodings ≠ []) :
    (h265vramEncoding host decodings || (h265hwEncoding host decodings).isSome) = true ↔
      Usable host decodings .h265 := by
  rw [h265vramEncoding, h265hwEncoding, Usable]
  have hall : allSupport decodings (·.abilityH265) = true ↔ _ := allSupport_iff hne
  simp only [SupportedDecoding.Decodes, Host.CanEncode, ← hall]
  by_cases h : allSupport decodings (·.abilityH265) = true
  · simp only [h, Bool.true_and, Bool.and_true, true_and]
    cases host.enableHwcodecOption <;> simp
  · simp [Bool.eq_false_iff.mpr h]

theorem h264Useable_iff (hne : decodings ≠ []) :
    h264Useable host decodings = true ↔ Usable host decodings .h264 := by
  rw [h264Useable, Bool.and_eq_true, h264Encoding_iff hne, allSupport_iff hne]
  exact and_iff_right_of_imp fun h => h.1

theorem h265Useable_iff (hne : decodings ≠ []) :
    h265Useable host decodings = true ↔ Usable host decodings .h265 := by
  rw [h265Useable, Bool.and_eq_true, h265Encoding_iff hne, allSupport_iff hne]
  exact and_iff_right_of_imp fun h => h.1

theorem autoCodec_eq (hne : decodings ≠ []) :
    autoCodec host decodings = automatic host decodings := by
  rw [autoCodec, automatic, ← h265Useable_iff hne, ← h264Useable_iff hne, ← vp8Useable_iff host hne,
    ← av1Useable_iff hne]
  cases h265Useable host decodings <;> cases h264Useable host decodings <;> cases vp8Useable
    decodings <;>
    cases av1Useable host decodings <;> simp

/-- The choice of the host is a codec for everybody. -/
theorem automatic_usable (hvp9 : ∀ d ∈ decodings, d.Decodes .vp9) :
    Usable host decodings (automatic host decodings) := by
  rw [automatic]
  split
  · assumption
  split
  · assumption
  split
  · next h => exact h.1
  split
  · next h => exact h.1
  · exact ⟨hvp9, True.intro⟩

/-- Those preferences count that are for a codec for everybody. -/
theorem mem_preferences (hne : decodings ≠ []) (hvp9 : ∀ d ∈ decodings, d.Decodes .vp9)
    {v : Int32} : v ∈ preferences host decodings ↔
      (∃ d ∈ decodings, d.prefer = v) ∧ ∃ c p, Usable host decodings c ∧ c.preference = some p ∧
        p.value = v := by
  have h9 : Usable host decodings .vp9 := ⟨hvp9, True.intro⟩
  simp only [preferences, List.mem_map, List.mem_filter, Bool.or_eq_true, Bool.and_eq_true,
    decide_eq_true_eq,
    vp8Useable_iff host hne, av1Useable_iff hne, h264Useable_iff hne, h265Useable_iff hne]
  constructor
  · rintro ⟨d, ⟨hd, hcounts⟩, rfl⟩
    refine ⟨⟨d, hd, rfl⟩, ?_⟩
    rcases hcounts with (((hp | ⟨hp, hu⟩) | ⟨hp, hu⟩) | ⟨hp, hu⟩) | ⟨hp, hu⟩
    · exact ⟨.vp9, .vp9, h9, rfl, hp.symm⟩
    · exact ⟨.vp8, .vp8, hu, rfl, hp.symm⟩
    · exact ⟨.av1, .av1, hu, rfl, hp.symm⟩
    · exact ⟨.h264, .h264, hu, rfl, hp.symm⟩
    · exact ⟨.h265, .h265, hu, rfl, hp.symm⟩
  · rintro ⟨⟨d, hd, rfl⟩, c, p, hu, hc, hp⟩
    refine ⟨d, ⟨hd, ?_⟩, rfl⟩
    cases c <;> cases hc <;> simp [← hp, hu]

variable {c : CodecFormat} {order : List SupportedDecoding}

/-- None of the preferences for a codec for everybody is left out. -/
theorem count_preferences (hne : decodings ≠ []) {p : PreferCodec} (hu : Usable host decodings c)
    (hc : c.preference = some p) :
    (preferences host decodings).count p.value = supporters decodings c := by
  rw [preferences, List.count_eq_countP, List.countP_map, List.countP_filter, supporters, hc]
  refine List.countP_congr fun d _ => ?_
  simp only [Function.comp_apply, beq_iff_eq, Bool.or_eq_true, Bool.and_eq_true, decide_eq_true_eq,
    Option.any_some,
    vp8Useable_iff host hne, av1Useable_iff hne, h264Useable_iff hne, h265Useable_iff hne]
  constructor
  · exact fun h => h.1.symm
  · intro hp
    refine ⟨hp.symm, ?_⟩
    cases c <;> cases hc <;> simp [← hp, hu]

theorem enumValueOr_value (p d : PreferCodec) : PreferCodec.enumValueOr p.value d = p := by
  cases p <;> rfl

/-- The most frequent preference decides. -/
theorem negotiate_preferred (hne : decodings ≠ []) {p : PreferCodec} (hu : Usable host decodings c)
    (hc : c.preference = some p)
    (hmost : mostFrequent (preferences host decodings) = some p.value) :
    (negotiate host decodings).1 = c := by
  simp only [negotiate, hmost, Option.getD_some, enumValueOr_value]
  -- for the hardware codecs the code looks once more whether there is an encoder
  cases c with
  | h264 =>
    cases hc
    exact if_pos ((h264Encoding_iff hne).mpr hu)
  | h265 =>
    cases hc
    exact if_pos ((h265Encoding_iff hne).mpr hu)
  | vp8 | vp9 | av1 =>
    cases hc
    rfl
  | unknown => cases hc

theorem negotiate_automatic (hne : decodings ≠ [])
    (hmost : mostFrequent (preferences host decodings) = none) :
    (negotiate host decodings).1 = automatic host decodings := by
  rw [← autoCodec_eq hne, negotiate, hmost]
  rfl

theorem usable_preference (hu : Usable host decodings c) : ∃ p, c.preference = some p := by
  cases c with
  | unknown => exact hu.2.elim
  | vp8 | vp9 | av1 | h264 | h265 => exact ⟨_, rfl⟩

/-- No preference counts and the host chooses, or one of the most frequent preferences is taken. -/
theorem negotiate_cases (hne : decodings ≠ []) (hvp9 : ∀ d ∈ decodings, d.Decodes .vp9) :
    ((∀ c, Usable host decodings c → supporters decodings c = 0) ∧
      (negotiate host decodings).1 = automatic host decodings) ∨
    (Usable host decodings (negotiate host decodings).1 ∧
      0 < supporters decodings (negotiate host decodings).1 ∧
      ∀ c, Usable host decodings c → supporters decodings c ≤
        supporters decodings (negotiate host decodings).1) := by
  cases hmost : mostFrequent (preferences host decodings) with
  | none =>
    refine .inl ⟨fun c hu => ?_, negotiate_automatic hne hmost⟩
    obtain ⟨p, hc⟩ := usable_preference hu
    rw [← count_preferences hne hu hc, mostFrequent_eq_none.mp hmost]
    rfl
  | some v =>
    obtain ⟨hmem, hmax⟩ := mostFrequent_some hmost
    obtain ⟨-, c, p, hu, hc, rfl⟩ := (mem_preferences hne hvp9).mp hmem
    have hcount := count_preferences hne hu hc
    rw [negotiate_preferred hne hu hc hmost]
    refine .inr ⟨hu, ?_, fun c' hu' => ?_⟩
    · rw [← hcount]
      exact List.count_pos_iff.mpr hmem
    · obtain ⟨p', hc'⟩ := usable_preference hu'
      rw [← hcount, ← count_preferences hne hu' hc']
      exact hmax p'.value

theorem negotiate_negotiated (hne : decodings ≠ []) (hvp9 : ∀ d ∈ decodings, d.Decodes .vp9) :
    Negotiated host decodings (negotiate host decodings).1 (negotiate host decodings).2 := by
  have hcases := @negotiate_cases host decodings hne hvp9
  constructor
  case h264 => exact h264Useable_iff hne
  case h265 => exact h265Useable_iff hne
  case vp8 => exact vp8Useable_iff host hne
  case av1 => exact av1Useable_iff hne
  case usable =>
    rcases hcases with ⟨-, h⟩ | ⟨hu, -, -⟩
    · rw [h]
      exact automatic_usable hvp9
    · exact hu
  case preferred =>
    rintro ⟨c, hu, hpos⟩
    rcases hcases with ⟨hzero, -⟩ | ⟨-, hpos, hmax⟩
    · rw [hzero c hu] at hpos
      cases hpos
    · exact ⟨hpos, hmax⟩
  case automatic =>
    intro hzero
    rcases hcases with ⟨-, h⟩ | ⟨hu, hpos, -⟩
    · exact h
    · rw [hzero _ hu] at hpos
      cases hpos

/-! ## The order of the viewers -/

theorem supporters_perm (hperm : order.Perm decodings) (c : CodecFormat) :
    supporters order c = supporters decodings c := hperm.countP_eq _

theorem usable_perm (hperm : order.Perm decodings) : Usable host order = Usable host decodings := by
  funext c
  simp only [Usable, hperm.mem_iff]

theorem automatic_perm (hperm : order.Perm decodings) :
    automatic host order = automatic host decodings := by
  rw [automatic, automatic, usable_perm hperm]

theorem Negotiated.of_perm {format : CodecFormat} {encoding : SupportedEncoding}
    (hperm : order.Perm decodings) (h : Negotiated host order format encoding) :
    Negotiated host decodings format encoding := by
  obtain ⟨hu, hpreferred, hautomatic, h264, h265, hvp8, hav1⟩ := h
  simp only [usable_perm hperm, supporters_perm hperm, automatic_perm hperm] at *
  exact ⟨hu, hpreferred, hautomatic, h264, h265, hvp8, hav1⟩

/-- Of two choices that are as they should be, none is better if there is only one most frequent
preference. -/
theorem Negotiated.unique {format format' : CodecFormat} {encoding encoding' : SupportedEncoding}
    (hunique : UniquePreference host decodings) (h : Negotiated host decodings format encoding)
    (h' : Negotiated host decodings format' encoding') :
    format = format' ∧ encoding = encoding' := by
  constructor
  · by_cases hsome : ∃ c, Usable host decodings c ∧ 0 < supporters decodings c
    · obtain ⟨hpos, hmax⟩ := h.preferred hsome
      obtain ⟨hpos', hmax'⟩ := h'.preferred hsome
      exact hunique _ _ h.usable h'.usable hpos hpos' hmax hmax'
    · have hzero : ∀ c, Usable host decodings c → supporters decodings c = 0 := fun c hu =>
        Nat.eq_zero_of_not_pos fun hpos => hsome ⟨c, hu, hpos⟩
      rw [h.automatic hzero, h'.automatic hzero]
  · obtain ⟨a, b, c, d⟩ := encoding
    obtain ⟨a', b', c', d'⟩ := encoding'
    congr
    · exact Bool.eq_iff_iff.mpr (h.h264.trans h'.h264.symm)
    · exact Bool.eq_iff_iff.mpr (h.h265.trans h'.h265.symm)
    · exact Bool.eq_iff_iff.mpr (h.vp8.trans h'.vp8.symm)
    · exact Bool.eq_iff_iff.mpr (h.av1.trans h'.av1.symm)

end Choice

/-! ## Runs -/

/-- What a viewer sends says that it decodes VP9. -/
def EncodingUpdate.DecodesVp9 : EncodingUpdate → Prop
  | .update _ decoding => decoding.Decodes .vp9
  | .remove _ | .newOnlyVP9 _ | .check => True

/-- The other viewers are as they were. -/
theorem mem_values_change {decodings : AList (fun _ : Int32 => SupportedDecoding)}
    {u : EncodingUpdate} (hu : u.DecodesVp9) {d : SupportedDecoding}
    (h : d ∈ State.values (State.change decodings u)) :
    d ∈ State.values decodings ∨ d.Decodes .vp9 := by
  obtain ⟨e, he, rfl⟩ := List.mem_map.mp h
  have hkept : ∀ id, e ∈ decodings.entries.kerase id → e.2 ∈ State.values decodings := fun id h =>
    List.mem_map_of_mem ((List.kerase_sublist id _).subset h)
  cases u with
  | update id decoding =>
    rcases List.mem_cons.mp he with rfl | he
    · exact .inr hu
    · exact .inl (hkept id he)
  | newOnlyVP9 id =>
    rcases List.mem_cons.mp he with rfl | he
    · exact .inr (show (1 : Int32) > 0 by decide)
    · exact .inl (hkept id he)
  | remove id => exact .inl (hkept id he)
  | check => exact .inl (List.mem_map_of_mem he)

/-- All viewers decode VP9. -/
def State.AllVp9 (s : State) : Prop := ∀ d ∈ values s.decodings, d.Decodes .vp9

theorem State.update_eq {s s' : State} {a : Act} (h : s.update a = some s') :
    a.order.Perm (values (change s.decodings a.update)) ∧
    s' = ⟨change s.decodings a.update, (negotiate a.host a.order).1,
      some (negotiate a.host a.order).2⟩ := by
  rw [State.update] at h
  split at h
  · next hperm => exact ⟨hperm, (Option.some.inj h).symm⟩
  · cases h

theorem State.change_allVp9 {s : State} {u : EncodingUpdate} (hs : s.AllVp9) (hu : u.DecodesVp9) :
    ∀ d ∈ values (change s.decodings u), d.Decodes .vp9 := fun d hd =>
  (mem_values_change hu hd).elim (hs d) id

theorem exec_allVp9 {acts : List Act} {s : State} (hacts : ∀ a ∈ acts, a.update.DecodesVp9)
    (hrun : exec State.update .start acts = some s) : s.AllVp9 := by
  have halong : Along State.update (fun _ a => a.update.DecodesVp9) .start acts :=
    along_of_forall (fun a ha _ => hacts a ha) _
  refine exec_invariant_along (fun s a s' hs ha hstep => ?_) (fun d hd => by cases hd) halong hrun
  obtain ⟨-, rfl⟩ := State.update_eq hstep
  exact State.change_allVp9 hs ha

/-- After every call, whatever came before and in whatever order the map lists the viewers: if there
are viewers, the codec and the encodings are as they should be, and the order decides only between
preferences that are equally frequent. -/
theorem codec_negotiated {acts : List Act} {a : Act} {s s' : State}
    (hacts : ∀ b ∈ acts ++ [a], b.update.DecodesVp9) (hrun : exec State.update .start acts = some s)
    (hupdate : s.update a = some s') (hviewers : s'.decodings ≠ ∅) :
    (∃ encoding, s'.usable = some encoding ∧ Negotiated a.host (State.values s'.decodings)
      s'.format encoding) ∧
    (UniquePreference a.host (State.values s'.decodings) →
      ∀ order, order.Perm (State.values s'.decodings) →
        s.update ⟨a.update, a.host, order⟩ = some s') := by
  have hs : s.AllVp9 := exec_allVp9 (fun b hb => hacts b (List.mem_append_left _ hb)) hrun
  have hvp9 := State.change_allVp9 hs (hacts a (by simp))
  obtain ⟨hperm, rfl⟩ := State.update_eq hupdate
  have hne : State.values (State.change s.decodings a.update) ≠ [] := by
    intro hnil
    exact hviewers (AList.ext (List.map_eq_nil_iff.mp hnil))
  -- every order gives a choice that is as it should be
  have hall : ∀ order, order.Perm (State.values (State.change s.decodings a.update)) →
      Negotiated a.host (State.values (State.change s.decodings a.update))
        (negotiate a.host order).1
        (negotiate a.host order).2 := by
    intro order horder
    refine Negotiated.of_perm horder (negotiate_negotiated ?_ fun d hd =>
      hvp9 d (horder.mem_iff.mp hd))
    rintro rfl
    exact hne (List.nil_perm.mp horder)
  refine ⟨⟨_, rfl, hall a.order hperm⟩, fun hunique order horder => ?_⟩
  obtain ⟨hformat, hencoding⟩ := Negotiated.unique hunique (hall order horder) (hall a.order hperm)
  rw [State.update]
  simp only [if_pos horder, hformat, hencoding]

/-- Two viewers prefer different codecs, and one of these is for everybody; with no hardware
encoder. -/
theorem codec_negotiated_two : ∃ s s', exec State.update .start
        [⟨.update 1 ⟨1, 1, 0, 2, 1, 0⟩, ⟨false, false, 0, 0, false, none, none, "", 2 ^ 34⟩,
          [⟨1, 1, 0, 2, 1, 0⟩]⟩] = some s ∧
      s.update ⟨.update 2 ⟨1, 1, 0, 4, 1, 0⟩, ⟨false, false, 0, 0, false, none, none, "", 2 ^ 34⟩,
        [⟨1, 1, 0, 2, 1, 0⟩, ⟨1, 1, 0, 4, 1, 0⟩]⟩ = some s' ∧
      s'.format = .vp8 ∧
      ∃ encoding, s'.usable = some encoding ∧
        Negotiated ⟨false, false, 0, 0, false, none, none, "", 2 ^ 34⟩ (State.values s'.decodings)
          s'.format encoding := by
  have hrun : ((exec State.update .start
      [⟨.update 1 ⟨1, 1, 0, 2, 1, 0⟩, ⟨false, false, 0, 0, false, none, none, "", 2 ^ 34⟩,
        [⟨1, 1, 0, 2, 1, 0⟩]⟩]).any fun s =>
      (s.update ⟨.update 2 ⟨1, 1, 0, 4, 1, 0⟩, ⟨false, false, 0, 0, false, none, none, "", 2 ^ 34⟩,
        [⟨1, 1, 0, 2, 1, 0⟩, ⟨1, 1, 0, 4, 1, 0⟩]⟩).any fun s' =>
      s'.format = .vp8 ∧ s'.decodings.entries.length = 2) = true := by decide +kernel
  obtain ⟨s, hs, hrun⟩ := (Option.any_eq_true _ _).mp hrun
  obtain ⟨s', hs', hrun⟩ := (Option.any_eq_true _ _).mp hrun
  obtain ⟨hformat, hlength⟩ := of_decide_eq_true hrun
  refine ⟨s, s', hs, hs', hformat, (codec_negotiated ?_ hs hs' ?_).1⟩
  · intro b hb
    rcases List.mem_pair.mp hb with rfl | rfl
    · exact show (1 : Int32) > 0 by decide
    · exact show (1 : Int32) > 0 by decide
  · rintro hnone
    rw [hnone] at hlength
    cases hlength

end Codec
end BgDesk
