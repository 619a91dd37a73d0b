import Mathlib.Data.List.Basic

/-!
# Where UTF-8 may be cut

What valid UTF-8 is, said of lists of bytes, and where such a list may be cut in two. A byte alone
tells whether it begins a character and how long the character is (`leadLength`), or that it
continues one (`Continuation`); everything below rests on these two.

* `valid_cut` — a valid text cut anywhere: the end of the character that was cut is at most three
  bytes away;
* `valid_split` — cut before a byte that does not continue a character, both parts are valid;
* `valid_lead` — the first byte of a character says whether the bytes seen of it are all;
* `fromUtf8Lossy`, `fromUtf8` — any bytes as a text, with a mark for what is not one, or not at all.
-/

namespace BgDesk
namespace Utf8

/-- The bytes are the encoding of some characters. -/
def Valid (bs : List UInt8) : Prop := ∃ cs : List Char, bs = cs.flatMap String.utf8EncodeChar

theorem valid_iff (bs : List UInt8) : bs.toByteArray.IsValidUTF8 ↔ Valid bs := by
  constructor
  · rintro ⟨cs, hcs⟩
    exact ⟨cs, by simpa [List.utf8Encode] using hcs⟩
  · rintro ⟨cs, rfl⟩
    exact ⟨cs, rfl⟩

instance Valid.decidable (bs : List UInt8) : Decidable (Valid bs) :=
  decidable_of_iff _ (valid_iff bs)

/-- A byte that continues a character. -/
def Continuation (b : UInt8) : Prop := b &&& 0xC0 = 0x80

instance Continuation.decidable (b : UInt8) : Decidable (Continuation b) :=
  inferInstanceAs (Decidable (_ = _))

/-- The length of the character that begins with this byte, or zero. -/
def leadLength (b : UInt8) : ℕ :=
  if b &&& 0x80 = 0 then 1
  else if b &&& 0xE0 = 0xC0 then 2
  else if b &&& 0xF0 = 0xE0 then 3
  else if b &&& 0xF8 = 0xF0 then 4
  else 0

theorem leadLength_le (b : UInt8) : leadLength b ≤ 4 := by
  rw [leadLength]
  repeat' split
  all_goals omega

variable {b : UInt8} {bs : List UInt8}

theorem leadLength_of_continuation (h : Continuation b) : leadLength b = 0 := by
  have hall : ∀ n : Fin 256, Continuation (UInt8.ofNat n) → leadLength (UInt8.ofNat n) = 0 := by
    decide +kernel
  have hb := hall ⟨b.toNat, b.toNat_lt⟩
  rw [UInt8.ofNat_toNat] at hb
  exact hb h

section Bytes

theorem leadLength_one : ∀ n < 128, leadLength (UInt8.ofNat n) = 1 := by decide +kernel
theorem leadLength_two : ∀ n < 32, leadLength (UInt8.ofNat (n + 0xC0)) = 2 := by decide +kernel
theorem leadLength_three : ∀ n < 16, leadLength (UInt8.ofNat (n + 0xE0)) = 3 := by decide +kernel
theorem leadLength_four : ∀ n < 8, leadLength (UInt8.ofNat (n + 0xF0)) = 4 := by decide +kernel
theorem continuation_ofNat : ∀ n < 64, Continuation (UInt8.ofNat (n + 0x80)) := by decide +kernel

end Bytes

/-- A character is a byte that says how long it is, and bytes that continue it. -/
theorem utf8EncodeChar_shape (c : Char) :
    ∃ lead rest, String.utf8EncodeChar c = lead :: rest ∧ leadLength lead = rest.length + 1 ∧
      ∀ b ∈ rest, Continuation b := by
  have hcont : ∀ n, Continuation (UInt8.ofNat (n % 0x40 + 0x80)) := fun n =>
    continuation_ofNat _ (Nat.mod_lt _ (by decide))
  rw [String.utf8EncodeChar]
  split
  · exact ⟨_, _, rfl, leadLength_one _ (by omega), nofun⟩
  · split
    · refine ⟨_, _, rfl, leadLength_two _ (Nat.mod_lt _ (by decide)), ?_⟩
      simp only [List.forall_mem_cons]
      exact ⟨hcont _, nofun⟩
    · split
      · refine ⟨_, _, rfl, leadLength_three _ (Nat.mod_lt _ (by decide)), ?_⟩
        simp only [List.forall_mem_cons]
        exact ⟨hcont _, hcont _, nofun⟩
      · refine ⟨_, _, rfl, leadLength_four _ (Nat.mod_lt _ (by decide)), ?_⟩
        simp only [List.forall_mem_cons]
        exact ⟨hcont _, hcont _, hcont _, nofun⟩

/-! ## Building -/

theorem valid_nil : Valid [] := ⟨[], rfl⟩

theorem Valid.append {a b : List UInt8} (ha : Valid a) (hb : Valid b) : Valid (a ++ b) := by
  obtain ⟨cs, rfl⟩ := ha
  obtain ⟨ds, rfl⟩ := hb
  exact ⟨cs ++ ds, (List.flatMap_append ..).symm⟩

theorem valid_flatten {parts : List (List UInt8)} (h : ∀ part ∈ parts, Valid part) :
    Valid parts.flatten := by
  induction parts with
  | nil => exact valid_nil
  | cons part parts ih =>
    obtain ⟨hpart, hparts⟩ := List.forall_mem_cons.mp h
    rw [List.flatten_cons]
    exact hpart.append (ih hparts)

/-- Rule for a valid text: character by character. -/
theorem Valid.induction {P : List UInt8 → Prop} (hnil : P [])
    (hcons : ∀ lead rest text, leadLength lead = rest.length + 1 → (∀ b ∈ rest, Continuation b) →
      Valid (lead :: rest) → Valid text → P text → P (lead :: rest ++ text))
        (h : Valid bs) : P bs := by
  obtain ⟨cs, rfl⟩ := h
  induction cs with
  | nil => exact hnil
  | cons c cs ih =>
    obtain ⟨lead, rest, hshape, hlength, hrest⟩ := utf8EncodeChar_shape c
    rw [List.flatMap_cons, hshape]
    refine hcons lead rest _ hlength hrest ⟨[c], ?_⟩ ⟨cs, rfl⟩ ih
    rw [List.flatMap_singleton, hshape]

/-! ## Cutting -/

/-- A valid text does not begin in the middle of a character. -/
theorem Valid.head (h : Valid (b :: bs)) : ¬Continuation b := by
  have hall : ∀ x ∈ (b :: bs).head?, ¬Continuation x := by
    refine h.induction (P := fun bs => ∀ x ∈ bs.head?, ¬Continuation x) nofun ?_
    intro lead rest text hlength _ _ _ _ x hx hcont
    obtain rfl := Option.some.inj hx
    rw [leadLength_of_continuation hcont] at hlength
    cases hlength
  exact hall b rfl

/-- **A text cut anywhere**: what is left of the character that was cut is at most three bytes, all
of which continue it. -/
theorem valid_cut {text : List UInt8} (h : Valid text) :
    ∀ a b, text = a ++ b → ∃ tail rest, b = tail ++ rest ∧ tail.length ≤ 3 ∧
      (∀ x ∈ tail, Continuation x) ∧
      Valid (a ++ tail) ∧ Valid rest := by
  refine h.induction (P := fun text => ∀ a b, text = a ++ b → ∃ tail rest, b = tail ++ rest ∧
    tail.length ≤ 3 ∧
    (∀ x ∈ tail, Continuation x) ∧ Valid (a ++ tail) ∧ Valid rest) ?_ ?_
  · intro a b hab
    obtain ⟨rfl, rfl⟩ := List.append_eq_nil_iff.mp hab.symm
    exact ⟨[], [], rfl, by decide, nofun, valid_nil, valid_nil⟩
  · intro lead rest text hlength hrest hchar htext ih a b hab
    have hle := leadLength_le lead
    cases a with
    | nil =>
      exact ⟨[], b, rfl, by decide, nofun, valid_nil, by
        rw [← List.nil_append b, ← hab]; exact hchar.append htext⟩
    | cons x a =>
      rw [List.cons_append, List.cons_append] at hab
      obtain ⟨rfl, hparts⟩ := List.cons.inj hab
      -- the cut is in the first character or behind it
      rcases List.append_eq_append_iff.mp hparts with ⟨more, rfl, rfl⟩ | ⟨tail, rfl, rfl⟩
      · obtain ⟨tail, end', rfl, hshort, hcont, hvalid, hend⟩ := ih more b rfl
        refine ⟨tail, end', rfl, hshort, hcont, ?_, hend⟩
        have happend := hchar.append hvalid
        rwa [← List.append_assoc, List.cons_append] at happend
      · refine ⟨tail, text, rfl, ?_, fun y hy => hrest y (List.mem_append_right _ hy), hchar, htext⟩
        rw [List.length_append] at hlength
        omega

/-- **A text cut before a byte that does not continue a character.** -/
theorem valid_split {a b : List UInt8} (h : Valid (a ++ b)) (hb : ∀ x ∈ b.head?, ¬Continuation x) :
    Valid a ∧ Valid b := by
  obtain ⟨tail, rest, rfl, -, hcont, ha, hrest⟩ := valid_cut h a b rfl
  cases tail with
  | nil => exact ⟨by rwa [List.append_nil] at ha, hrest⟩
  | cons x tail => exact absurd (hcont x (List.mem_cons_self ..)) (hb x rfl)

/-- The first character, and what follows it. -/
theorem Valid.uncons {lead : UInt8} (h : Valid (lead :: bs)) :
    ∃ rest text, bs = rest ++ text ∧ leadLength lead = rest.length + 1 ∧
      (∀ b ∈ rest, Continuation b) ∧
      Valid (lead :: rest) ∧ Valid text := by
  obtain ⟨cs, hcs⟩ := h
  cases cs with
  | nil => cases hcs
  | cons c cs =>
    obtain ⟨lead', rest, hshape, hlength, hrest⟩ := utf8EncodeChar_shape c
    rw [List.flatMap_cons, hshape, List.cons_append] at hcs
    obtain ⟨rfl, rfl⟩ := List.cons.inj hcs
    refine ⟨rest, _, rfl, hlength, hrest, ⟨[c], ?_⟩, ⟨cs, rfl⟩⟩
    rw [List.flatMap_singleton, hshape]

/-- **The bytes seen of a character**: there are no more than its first byte says, and with that
many it is complete. -/
theorem valid_lead {lead : UInt8} {seen more : List UInt8} (h : Valid (lead :: (seen ++ more)))
    (hseen : ∀ b ∈ seen, Continuation b) :
    seen.length + 1 ≤ leadLength lead ∧ (seen.length + 1 = leadLength lead → Valid (lead :: seen) ∧
      Valid more) := by
  obtain ⟨rest, text, hsplit, hlength, -, hchar, htext⟩ := h.uncons
  rcases List.append_eq_append_iff.mp hsplit with ⟨missing, rfl, rfl⟩ | ⟨next, rfl, rfl⟩
  · rw [List.length_append] at hlength
    refine ⟨by omega, fun hall => ?_⟩
    obtain rfl : missing = [] := List.length_eq_zero_iff.mp (by omega)
    rw [List.append_nil] at hchar
    exact ⟨hchar, htext⟩
  · cases next with
    | nil =>
      rw [List.append_nil]
      exact ⟨by omega, fun _ => ⟨hchar, htext⟩⟩
    | cons x next =>
      exact absurd (hseen x (List.mem_append_right _ (List.mem_cons_self ..))) htext.head

/-! ## Repairing -/

/-- What may follow this first byte of three or four. -/
def SecondFits (lead second : UInt8) : Prop :=
  (lead = 0xE0 ∧ 0xA0 ≤ second ∧ second ≤ 0xBF) ∨
    (0xE1 ≤ lead ∧ lead ≤ 0xEC ∧ 0x80 ≤ second ∧ second ≤ 0xBF) ∨
  (lead = 0xED ∧ 0x80 ≤ second ∧ second ≤ 0x9F) ∨
    (0xEE ≤ lead ∧ lead ≤ 0xEF ∧ 0x80 ≤ second ∧ second ≤ 0xBF) ∨
  (lead = 0xF0 ∧ 0x90 ≤ second ∧ second ≤ 0xBF) ∨
    (0xF1 ≤ lead ∧ lead ≤ 0xF3 ∧ 0x80 ≤ second ∧ second ≤ 0xBF) ∨
  (lead = 0xF4 ∧ 0x80 ≤ second ∧ second ≤ 0x8F)

instance SecondFits.decidable (lead second : UInt8) : Decidable (SecondFits lead second) :=
  inferInstanceAs (Decidable (_ ∨ _))

/-- Where no character begins, the bytes that one mark stands for: as many as could have begun one.
-/
def invalidLength : List UInt8 → ℕ
  | lead :: second :: third :: _ =>
    if SecondFits lead second then
      if 0xF0 ≤ lead ∧ Continuation third then 3 else 2
    else 1
  | [lead, second] => if SecondFits lead second then 2 else 1
  | _ => 1

/-- The mark, U+FFFD. -/
def replacement : Char := Char.ofNat 0xFFFD

/-- `fromUtf8Lossy` in so many steps. -/
def lossyFrom : ℕ → List UInt8 → List Char
  | n + 1, b :: bs =>
    match (b :: bs).toByteArray.utf8DecodeChar? 0 with
    | some c => c :: lossyFrom n ((b :: bs).drop c.utf8Size)
    | none => replacement :: lossyFrom n ((b :: bs).drop (invalidLength (b :: bs)))
  | _, _ => []

/-- The characters, and a mark for each longest run of bytes that begins one and does not complete
it. -/
def fromUtf8Lossy (bs : List UInt8) : List Char := lossyFrom bs.length bs

theorem lossyFrom_some {n : ℕ} {c : Char} (h : (b :: bs).toByteArray.utf8DecodeChar? 0 = some c) :
    lossyFrom (n + 1) (b :: bs) = c :: lossyFrom n ((b :: bs).drop c.utf8Size) := by
  rw [lossyFrom, h]

theorem lossyFrom_none {n : ℕ} (h : (b :: bs).toByteArray.utf8DecodeChar? 0 = none) :
    lossyFrom (n + 1) (b :: bs) = replacement ::
      lossyFrom n ((b :: bs).drop (invalidLength (b :: bs))) := by
  rw [lossyFrom, h]

theorem lossyFrom_encode_append (cs : List Char) (n : ℕ) (rest : List UInt8) :
    lossyFrom (cs.length + n) (cs.flatMap String.utf8EncodeChar ++ rest) = cs ++
      lossyFrom n rest := by
  induction cs with
  | nil => rw [List.flatMap_nil, List.length_nil, Nat.zero_add, List.nil_append, List.nil_append]
  | cons c cs ih =>
    have hdecode :
        (String.utf8EncodeChar c ++ (cs.flatMap String.utf8EncodeChar ++
          rest)).toByteArray.utf8DecodeChar? 0 = some c := by
      rw [List.toByteArray_append, ByteArray.utf8DecodeChar?_utf8EncodeChar_append]
    have hdrop : (String.utf8EncodeChar c ++ (cs.flatMap String.utf8EncodeChar ++ rest)).drop
      c.utf8Size =
        cs.flatMap String.utf8EncodeChar ++ rest := by
      rw [← String.length_utf8EncodeChar, List.drop_left]
    obtain ⟨lead, more, hshape, -, -⟩ := utf8EncodeChar_shape c
    rw [hshape, List.cons_append] at hdecode hdrop
    rw [List.flatMap_cons, List.append_assoc, hshape, List.cons_append, List.length_cons,
      Nat.add_right_comm, lossyFrom_some hdecode,
      hdrop, ih, List.cons_append]

theorem length_le_encode (cs : List Char) :
    cs.length ≤ (cs.flatMap String.utf8EncodeChar).length := by
  induction cs with
  | nil => exact Nat.zero_le _
  | cons c cs ih =>
    have hpos := c.utf8Size_pos
    rw [List.flatMap_cons, List.length_append, String.length_utf8EncodeChar, List.length_cons]
    omega

theorem lossyFrom_nil (n : ℕ) : lossyFrom n [] = [] := by
  cases n <;> rfl

/-- A text needs no repair. -/
theorem fromUtf8Lossy_encode (cs : List Char) :
    fromUtf8Lossy (cs.flatMap String.utf8EncodeChar) = cs := by
  obtain ⟨n, hn⟩ := Nat.exists_eq_add_of_le (length_le_encode cs)
  have hall := lossyFrom_encode_append cs n []
  rwa [lossyFrom_nil, List.append_nil, List.append_nil, ← hn] at hall

/-- A text that begins with the bytes of another begins with the other. -/
theorem prefix_of_encode {cs ds : List Char}
    (h : cs.flatMap String.utf8EncodeChar <+: ds.flatMap String.utf8EncodeChar) : cs <+: ds := by
  obtain ⟨rest, hrest⟩ := h
  have hall := lossyFrom_encode_append cs ds.length rest
  have hds := lossyFrom_encode_append ds cs.length []
  rw [lossyFrom_nil, List.append_nil, List.append_nil, Nat.add_comm] at hds
  rw [hrest, hds] at hall
  exact ⟨_, hall.symm⟩

/-- What is repaired to characters without a mark was their encoding. -/
theorem encode_lossyFrom (n : ℕ) : ∀ bs, bs.length ≤ n → replacement ∉ lossyFrom n bs →
    (lossyFrom n bs).flatMap String.utf8EncodeChar = bs := by
  induction n with
  | zero =>
    intro bs hbs hmark
    rw [List.length_eq_zero_iff.mp (Nat.le_zero.mp hbs)]
    rfl
  | succ n ih =>
    intro bs hbs hmark
    cases bs with
    | nil => rfl
    | cons b bs =>
      cases hdecode : (b :: bs).toByteArray.utf8DecodeChar? 0 with
      | none =>
        rw [lossyFrom_none hdecode] at hmark
        exact absurd (List.mem_cons_self ..) hmark
      | some c =>
        rw [lossyFrom_some hdecode] at hmark ⊢
        obtain ⟨l, hl⟩ := ByteArray.exists_of_utf8DecodeChar?_eq_some hdecode
        have hsplit : b :: bs = String.utf8EncodeChar c ++ l.data.toList := by
          have htoList := congrArg (fun bytes => bytes.data.toList) hl
          simpa using htoList
        have hpos := c.utf8Size_pos
        have hdrop : (b :: bs).drop c.utf8Size = l.data.toList := by
          rw [hsplit, ← String.length_utf8EncodeChar, List.drop_left]
        have hlength := congrArg List.length hsplit
        rw [List.length_append, String.length_utf8EncodeChar] at hlength
        rw [hdrop] at hmark ⊢
        rw [List.flatMap_cons, ih _ (by omega) (fun h => hmark (List.mem_cons_of_mem _ h))]
        exact hsplit.symm

/-- Without a mark, nothing was repaired. -/
theorem encode_fromUtf8Lossy (h : replacement ∉ fromUtf8Lossy bs) :
    (fromUtf8Lossy bs).flatMap String.utf8EncodeChar = bs := encode_lossyFrom _ bs (Nat.le_refl _) h

/-- The text, if the bytes are one. -/
def fromUtf8 (bs : List UInt8) : Option (List Char) :=
  if Valid bs then some (fromUtf8Lossy bs) else none

theorem fromUtf8_encode (cs : List Char) :
    fromUtf8 (cs.flatMap String.utf8EncodeChar) = some cs := by
  rw [fromUtf8, if_pos ⟨cs, rfl⟩, fromUtf8Lossy_encode]

theorem encode_fromUtf8 {cs : List Char} (h : fromUtf8 bs = some cs) :
    cs.flatMap String.utf8EncodeChar = bs := by
  rw [fromUtf8] at h
  split at h
  · rename_i hvalid
    obtain ⟨ds, rfl⟩ := hvalid
    rw [fromUtf8Lossy_encode] at h
    obtain rfl := Option.some.inj h
    rfl
  · cases h

-- two bytes of a euro sign, then bytes that begin nothing
example : fromUtf8Lossy [0xE2, 0x82, 0x42, 0xF0, 0xC3, 0xBC] =
    [replacement, 'B', replacement, 'ü'] := by decide

end Utf8
end BgDesk
