import Mathlib.Data.String.Basic
import BgDesk.SortedMap

/-!
# JSON documents and their canonical text

A document keeps the members of its objects in the order in which they come, with repeated names.
The numbers are of an arbitrary type: it is asked only that their texts are different and are made
of the characters of numbers.

* `sorted` — the value of a document: every object is a map, sorted by the names, and of members
  with the same name the last one stays;
* `write` — the text without white space; `write_injective`;
* `Rearranged` — two documents are the same up to the order of the members of their objects;
* `canonical_eq_iff` — the texts of the sorted documents are the same if and only if the documents
  are, up to that order.
-/

namespace BgDesk

universe u

/-- A document, with numbers in `ν`. -/
inductive Json (ν : Type u) : Type u where
  | null : Json ν
  | bool : Bool → Json ν
  | number : ν → Json ν
  | string : String → Json ν
  | array : List (Json ν) → Json ν
  | object : List (String × Json ν) → Json ν

/-- The characters of numbers. -/
def isNumeral (c : Char) : Bool := c.isDigit || c = '-' || c = '+' || c = '.' || c = 'e' || c = 'E'

/-- How numbers are written. -/
structure Numerals (ν : Type u) : Type u where
  text : ν → List Char
  injective : Function.Injective text
  ne_nil : ∀ n, text n ≠ []
  numeral : ∀ n, ∀ c ∈ text n, isNumeral c = true

namespace Json

variable {ν : Type u}

/-- Induction over the elements of arrays and the members of objects. -/
@[elab_as_elim, induction_eliminator]
theorem induct {P : Json ν → Prop} (null : P .null) (bool : ∀ b, P (.bool b))
    (number : ∀ n, P (.number n)) (string : ∀ s, P (.string s))
    (array : ∀ vs, (∀ v ∈ vs, P v) → P (.array vs))
    (object : ∀ ms : List (String × Json ν), (∀ m ∈ ms, P m.2) → P (.object ms)) (v : Json ν) :
    P v := by
  refine @Json.rec ν P (fun vs => ∀ v ∈ vs, P v) (fun ms => ∀ m ∈ ms, P m.2) (fun m => P m.2)
    null bool number string array object ?_ ?_ ?_ ?_ ?_ v
  · exact fun v h => absurd h List.not_mem_nil
  · exact fun v vs hv hvs => List.forall_mem_cons.mpr ⟨hv, hvs⟩
  · exact fun m h => absurd h List.not_mem_nil
  · exact fun m ms hm hms => List.forall_mem_cons.mpr ⟨hm, hms⟩
  · exact fun k v hv => hv

/-! ## Values -/

mutual

/-- The value of a document. -/
def sorted : Json ν → Json ν
  | .null => .null
  | .bool b => .bool b
  | .number n => .number n
  | .string s => .string s
  | .array vs => .array (sortedElements vs)
  | .object ms => .object (SortedMap.collect (sortedMembers ms))

def sortedElements : List (Json ν) → List (Json ν)
  | [] => []
  | v :: vs => sorted v :: sortedElements vs

def sortedMembers : List (String × Json ν) → List (String × Json ν)
  | [] => []
  | (k, v) :: ms => (k, sorted v) :: sortedMembers ms

end

theorem sortedElements_eq (vs : List (Json ν)) : sortedElements vs = vs.map sorted := by
  induction vs with
  | nil => rfl
  | cons v vs ih => rw [sortedElements, ih, List.map_cons]

theorem sortedMembers_eq (ms : List (String × Json ν)) :
    sortedMembers ms = ms.map fun m => (m.1, sorted m.2) := by
  induction ms with
  | nil => rfl
  | cons m ms ih => rw [sortedMembers, ih, List.map_cons]

theorem sorted_array (vs : List (Json ν)) : sorted (.array vs) = .array (vs.map sorted) := by
  rw [sorted, sortedElements_eq]

/-- Members are sorted by name, the last of a name wins, and values are sorted within. -/
theorem sorted_object (ms : List (String × Json ν)) :
    sorted (.object ms) = .object (SortedMap.collect (ms.map fun m => (m.1, sorted m.2))) := by
  rw [sorted, sortedMembers_eq]

/-! ## Texts -/

/-- A digit of a character code below 32. -/
def hexDigit (n : ℕ) : Char := "0123456789abcdef".toList.getD n '0'

/-- A character in a string. -/
def escape (c : Char) : List Char :=
  if c = '"' then ['\\', '"']
  else if c = '\\' then ['\\', '\\']
  else if c.toNat = 0x08 then ['\\', 'b']
  else if c.toNat = 0x09 then ['\\', 't']
  else if c.toNat = 0x0a then ['\\', 'n']
  else if c.toNat = 0x0c then ['\\', 'f']
  else if c.toNat = 0x0d then ['\\', 'r']
  else if c.toNat < 0x20 then ['\\', 'u', '0', '0', hexDigit (c.toNat / 16),
    hexDigit (c.toNat % 16)]
  else [c]

/-- A string. -/
def quote (s : String) : List Char := '"' :: s.toList.flatMap escape ++ ['"']

/-- Texts with commas between them. -/
def commas : List (List Char) → List Char
  | [] => []
  | t :: ts => t ++ ts.flatMap (',' :: ·)

section Write

variable (numerals : Numerals ν)

mutual

/-- The text of a document, without white space. -/
def write : Json ν → List Char
  | .null => "null".toList
  | .bool b => if b then "true".toList else "false".toList
  | .number n => numerals.text n
  | .string s => quote s
  | .array vs => '[' :: commas (writeElements vs) ++ [']']
  | .object ms => '\x7b' :: commas (writeMembers ms) ++ ['\x7d']

def writeElements : List (Json ν) → List (List Char)
  | [] => []
  | v :: vs => write v :: writeElements vs

def writeMembers : List (String × Json ν) → List (List Char)
  | [] => []
  | (k, v) :: ms => (quote k ++ ':' :: write v) :: writeMembers ms

end

/-- A member of an object. -/
def writeMember (m : String × Json ν) : List Char := quote m.1 ++ ':' :: write numerals m.2

theorem writeElements_eq (vs : List (Json ν)) :
    writeElements numerals vs = vs.map (write numerals) := by
  induction vs with
  | nil => rfl
  | cons v vs ih => rw [writeElements, ih, List.map_cons]

theorem writeMembers_eq (ms : List (String × Json ν)) :
    writeMembers numerals ms = ms.map (writeMember numerals) := by
  induction ms with
  | nil => rfl
  | cons m ms ih =>
    rw [writeMembers, ih, List.map_cons]
    rfl

end Write

/-! ### A text can be read in only one way -/

/-- What a character of a string was. -/
def unescape : List Char → Option (Char × List Char)
  | '\\' :: 'u' :: _ :: _ :: a :: b :: r =>
    let value (c : Char) := "0123456789abcdef".toList.idxOf c
    some (Char.ofNat (16 * value a + value b), r)
  | '\\' :: c :: r =>
    some (if c = 'b' then Char.ofNat 0x08 else if c = 't' then Char.ofNat 0x09 else if c =
      'n' then Char.ofNat 0x0a
      else if c = 'f' then Char.ofNat 0x0c else if c = 'r' then Char.ofNat 0x0d else c, r)
  | c :: r => some (c, r)
  | [] => none

theorem unescape_control (r : List Char) : ∀ n < 0x20,
    unescape ('\\' :: 'u' :: '0' :: '0' :: hexDigit (n / 16) :: hexDigit (n % 16) :: r) =
      some (Char.ofNat n, r) := by
  have hdigits : ∀ n < 0x20, 16 * "0123456789abcdef".toList.idxOf (hexDigit (n / 16)) +
      "0123456789abcdef".toList.idxOf (hexDigit (n % 16)) = n := by decide +kernel
  intro n hn
  rw [unescape, hdigits n hn]

/-- An escaped character is read back, whatever follows. -/
theorem unescape_escape (c : Char) (r : List Char) : unescape (escape c ++ r) = some (c, r) := by
  have hof : ∀ n, c.toNat = n → Char.ofNat n = c := by
    rintro n rfl
    exact Char.ofNat_toNat c
  rw [escape]
  split
  · next h => rw [h]; rfl
  split
  · next h => rw [h]; rfl
  split
  · next h => exact congrArg (fun d => some (d, r)) (hof _ h)
  split
  · next h => exact congrArg (fun d => some (d, r)) (hof _ h)
  split
  · next h => exact congrArg (fun d => some (d, r)) (hof _ h)
  split
  · next h => exact congrArg (fun d => some (d, r)) (hof _ h)
  split
  · next h => exact congrArg (fun d => some (d, r)) (hof _ h)
  split
  · next h => exact (unescape_control r _ h).trans (congrArg (fun d => some (d, r)) (hof _ rfl))
  · next hslash _ _ _ _ _ _ =>
    rw [List.singleton_append, unescape]
    · rintro _ _ _ _ _ rfl
      exact absurd rfl hslash
    · rintro _ _ rfl
      exact absurd rfl hslash

/-- No escape begins with the quote that ends a string. -/
theorem escape_ne_quote (c : Char) (r r' : List Char) : escape c ++ r ≠ '"' :: r' := by
  intro h
  have hread := unescape_escape c r
  rw [h] at hread
  obtain ⟨rfl, rfl⟩ := Prod.mk.inj (Option.some.inj hread)
  exact absurd (List.cons.inj h).1 (by decide)

variable {r r' : List Char} {v w : Json ν}

theorem escapes_append {cs ds : List Char}
    (h : cs.flatMap escape ++ '"' :: r = ds.flatMap escape ++ '"' :: r') : cs = ds ∧ r = r' := by
  induction cs generalizing ds with
  | nil =>
    cases ds with
    | nil => exact ⟨rfl, (List.cons.inj h).2⟩
    | cons d ds =>
      rw [List.flatMap_cons, List.append_assoc] at h
      exact absurd h.symm (escape_ne_quote _ _ _)
  | cons c cs ih =>
    rw [List.flatMap_cons, List.append_assoc] at h
    cases ds with
    | nil => exact absurd h (escape_ne_quote _ _ _)
    | cons d ds =>
      rw [List.flatMap_cons, List.append_assoc] at h
      have hread := congrArg unescape h
      rw [unescape_escape, unescape_escape] at hread
      obtain ⟨rfl, htail⟩ := Prod.mk.inj (Option.some.inj hread)
      obtain ⟨rfl, rfl⟩ := ih htail
      exact ⟨rfl, rfl⟩

/-- A string ends where its quote does, so what follows it can be told apart. -/
theorem quote_append {s s' : String} (h : quote s ++ r = quote s' ++ r') : s = s' ∧ r = r' := by
  simp only [quote, List.cons_append, List.append_assoc, List.nil_append, List.cons.injEq,
    true_and] at h
  obtain ⟨hs, hr⟩ := escapes_append h
  exact ⟨String.toList_injective hs, hr⟩

/-- A number ends here. -/
def Stops (r : List Char) : Prop := ∀ c ∈ r.head?, isNumeral c = false

/-- The text of `a` can be told from the text of anything else and from what comes after it. -/
def Readable {α : Type u} (text : α → List Char) (a : α) : Prop :=
  ∀ b r r', Stops r → Stops r' → text a ++ r = text b ++ r' → a = b ∧ r = r'

/-- With commas between them and something else at the end, texts stay readable. -/
theorem commas_append {α : Type u} {text : α → List Char} {close : Char}
    (hstop : isNumeral close = false)
    (hclose : ',' ≠ close) {as : List α} (has : ∀ a ∈ as, Readable text a) {bs : List α}
    (h : (as.map text).flatMap (',' :: ·) ++ close :: r = (bs.map text).flatMap (',' :: ·) ++
    close :: r') : as = bs ∧ r = r' := by
  -- what comes after a text is a comma or the end
  have hnext : ∀ (as : List α) (r : List Char),
      Stops ((as.map text).flatMap (',' :: ·) ++ close :: r) := by
    intro as r
    cases as with
    | nil => simpa [Stops] using hstop
    | cons a as =>
      intro c hc
      obtain rfl := Option.some.inj hc
      rfl
  induction as generalizing bs with
  | nil =>
    cases bs with
    | nil => exact ⟨rfl, (List.cons.inj h).2⟩
    | cons b bs => exact absurd (List.cons.inj h).1 (Ne.symm hclose)
  | cons a as ih =>
    cases bs with
    | nil => exact absurd (List.cons.inj h).1 hclose
    | cons b bs =>
      simp only [List.map_cons, List.flatMap_cons, List.cons_append, List.append_assoc,
        List.cons.injEq, true_and] at h
      obtain ⟨rfl, htail⟩ := has a List.mem_cons_self b _ _ (hnext as r) (hnext bs r') h
      obtain ⟨rfl, rfl⟩ := ih (fun a ha => has a (List.mem_cons_of_mem _ ha)) htail
      exact ⟨rfl, rfl⟩

/-- Elements between commas are told apart, if each is readable and none begins with what closes the
list. -/
theorem commas_close {α : Type u} {text : α → List Char} {close : Char}
    (hstop : isNumeral close = false) (hclose : ',' ≠ close)
    (hopen : ∀ a r r', text a ++ r ≠ close :: r') {as : List α} (has : ∀ a ∈ as, Readable text a)
    {bs : List α} (h : commas (as.map text) ++ close :: r = commas (bs.map text) ++ close :: r') :
    as = bs ∧ r = r' := by
  cases as with
  | nil =>
    cases bs with
    | nil => exact ⟨rfl, (List.cons.inj h).2⟩
    | cons b bs =>
      rw [List.map_cons, commas, List.append_assoc] at h
      exact absurd h.symm (hopen _ _ _)
  | cons a as =>
    rw [List.map_cons, commas, List.append_assoc] at h
    cases bs with
    | nil => exact absurd h (hopen _ _ _)
    | cons b bs =>
      rw [List.map_cons, commas, List.append_assoc] at h
      -- put a comma before both
      refine commas_append hstop hclose has ?_
      simp only [List.map_cons, List.flatMap_cons, List.cons_append, List.append_assoc]
      rw [h]

section Write

variable {numerals : Numerals ν}

/-- The characters a text can start with. -/
def lead : Json ν → Char → Bool
  | .null, c => c = 'n'
  | .bool b, c => c = if b then 't' else 'f'
  | .number _, c => isNumeral c
  | .string _, c => c = '"'
  | .array _, c => c = '['
  | .object _, c => c = '\x7b'

/-- The first character says what kind of value it is. -/
theorem write_lead (v : Json ν) : ∃ c t, write numerals v = c :: t ∧ lead v c = true := by
  cases v with
  | null => exact ⟨_, _, by rw [write]; rfl, rfl⟩
  | bool b =>
    rw [write]
    cases b
    · exact ⟨'f', "alse".toList, rfl, rfl⟩
    · exact ⟨'t', "rue".toList, rfl, rfl⟩
  | number n =>
    obtain ⟨c, t, htext⟩ := List.exists_cons_of_ne_nil (numerals.ne_nil n)
    refine ⟨c, t, by rw [write, htext], numerals.numeral n c ?_⟩
    rw [htext]
    exact List.mem_cons_self
  | string s => exact ⟨_, _, by rw [write]; rfl, rfl⟩
  | array vs => exact ⟨_, _, by rw [write]; rfl, rfl⟩
  | object ms => exact ⟨_, _, by rw [write]; rfl, rfl⟩

theorem write_open {c : Char} (hc : ∀ v : Json ν, lead v c = false) (v : Json ν)
    (r r' : List Char) : write numerals v ++ r ≠ c :: r' := by
  intro h
  obtain ⟨d, t, hwrite, hlead⟩ := @write_lead ν numerals v
  rw [hwrite] at h
  obtain ⟨rfl, -⟩ := List.cons.inj h
  rw [hc] at hlead
  cases hlead

theorem numerals_append {n n' : ν} {r r' : List Char} (hr : Stops r) (hr' : Stops r')
    (h : numerals.text n ++ r = numerals.text n' ++ r') : n = n' ∧ r = r' := by
  have hspan : ∀ (n : ν) (r : List Char), Stops r →
      (numerals.text n ++ r).takeWhile isNumeral = numerals.text n := by
    intro n r hr
    rw [List.takeWhile_append_of_pos (numerals.numeral n)]
    cases r with
    | nil => simp
    | cons c r => simp [hr c rfl]
  have htext : numerals.text n = numerals.text n' := by
    rw [← hspan n r hr, h, hspan n' r' hr']
  rw [htext] at h
  exact ⟨numerals.injective htext, List.append_cancel_left h⟩

/-- Equal texts start with the same character. -/
theorem lead_eq {v w : Json ν} {r r' : List Char}
    (h : write numerals v ++ r = write numerals w ++ r') :
    ∃ c, lead v c = true ∧ lead w c = true := by
  obtain ⟨c, t, hv, hc⟩ := @write_lead ν numerals v
  obtain ⟨d, t', hw, hd⟩ := @write_lead ν numerals w
  rw [hv, hw] at h
  obtain ⟨rfl, -⟩ := List.cons.inj h
  exact ⟨c, hc, hd⟩

theorem lead_close (v : Json ν) : lead v ']' = false ∧ lead v '\x7d' = false := by
  cases v with
  | bool b => cases b <;> exact ⟨rfl, rfl⟩
  | null | number | string | array | object => exact ⟨rfl, rfl⟩

theorem writeMember_readable {m : String × Json ν} (h : Readable (write numerals) m.2) :
    Readable (writeMember numerals) m := by
  intro m' r r' hr hr' htext
  rw [writeMember, writeMember, List.append_assoc, List.append_assoc] at htext
  obtain ⟨hname, htail⟩ := quote_append htext
  obtain ⟨hvalue, rfl⟩ := h m'.2 r r' hr hr' (List.cons.inj htail).2
  exact ⟨Prod.ext hname hvalue, rfl⟩

/-- **Every value is told apart from what follows it**, by induction over the value. -/
theorem write_readable (v : Json ν) : Readable (write numerals) v := by
  induction v with
  | null =>
    intro w r r' _ _ h
    obtain ⟨c, hc, hd⟩ := lead_eq h
    obtain rfl := of_decide_eq_true hc
    cases w with
    | null => exact ⟨rfl, List.append_cancel_left h⟩
    | bool b => cases b <;> cases hd
    | number | string | array | object => cases hd
  | bool b =>
    intro w r r' _ _ h
    obtain ⟨c, hc, hd⟩ := lead_eq h
    obtain rfl := of_decide_eq_true hc
    cases w with
    | bool b' =>
      cases b <;> cases b' <;> first | exact ⟨rfl, List.append_cancel_left h⟩ | cases hd
    | null | number | string | array | object => cases b <;> cases hd
  | number n =>
    intro w r r' hr hr' h
    obtain ⟨c, hc, hd⟩ := lead_eq h
    cases w with
    | number n' =>
      rw [write, write] at h
      obtain ⟨rfl, rfl⟩ := numerals_append hr hr' h
      exact ⟨rfl, rfl⟩
    | bool b =>
      obtain rfl := of_decide_eq_true hd
      cases b <;> cases hc
    | null | string | array | object =>
      obtain rfl := of_decide_eq_true hd
      cases hc
  | string s =>
    intro w r r' _ _ h
    obtain ⟨c, hc, hd⟩ := lead_eq h
    obtain rfl := of_decide_eq_true hc
    cases w with
    | string s' =>
      rw [write, write] at h
      obtain ⟨rfl, rfl⟩ := quote_append h
      exact ⟨rfl, rfl⟩
    | bool b => cases b <;> cases hd
    | null | number | array | object => cases hd
  | array vs ih =>
    intro w r r' _ _ h
    obtain ⟨c, hc, hd⟩ := lead_eq h
    obtain rfl := of_decide_eq_true hc
    cases w with
    | array ws =>
      simp only [write, writeElements_eq, List.cons_append, List.append_assoc, List.nil_append,
        List.cons.injEq,
        true_and] at h
      obtain ⟨rfl, rfl⟩ := commas_close (by decide) (by decide)
        (write_open fun v => (lead_close v).1) ih h
      exact ⟨rfl, rfl⟩
    | bool b => cases b <;> cases hd
    | null | number | string | object => cases hd
  | object ms ih =>
    intro w r r' _ _ h
    obtain ⟨c, hc, hd⟩ := lead_eq h
    obtain rfl := of_decide_eq_true hc
    cases w with
    | object ns =>
      simp only [write, writeMembers_eq, List.cons_append, List.append_assoc, List.nil_append,
        List.cons.injEq,
        true_and] at h
      obtain ⟨rfl, rfl⟩ := commas_close (by decide) (by decide)
        (fun m r r' hm => absurd (List.cons.inj hm).1 (by decide))
        (fun m hm => writeMember_readable (ih m hm)) h
      exact ⟨rfl, rfl⟩
    | bool b => cases b <;> cases hd
    | null | number | string | array => cases hd

/-- So different values are written differently. -/
theorem write_injective : Function.Injective (write numerals) := by
  intro v w h
  have hend : Stops [] := fun c hc => absurd hc (by simp)
  exact (write_readable v w [] [] hend hend (by rw [h])).1

end Write

/-! ## The order of members -/

/-- The members of all objects may be rearranged as `allowed` says. -/
inductive Rearranged (allowed : List (String × Json ν) → List (String × Json ν) → Prop) : Json ν →
  Json ν → Prop
  | refl (v : Json ν) : Rearranged allowed v v
  | trans {u v w : Json ν} : Rearranged allowed u v → Rearranged allowed v w →
    Rearranged allowed u w
  | members {ms ns : List (String × Json ν)} : allowed ms ns →
    Rearranged allowed (.object ms) (.object ns)
  | element {v w : Json ν} (before after : List (Json ν)) : Rearranged allowed v w →
      Rearranged allowed (.array (before ++ v :: after)) (.array (before ++ w :: after))
  | member {v w : Json ν} (before : List (String × Json ν)) (k : String)
    (after : List (String × Json ν)) :
      Rearranged allowed v w →
      Rearranged allowed (.object (before ++ (k, v) :: after)) (.object (before ++ (k, w) :: after))

/-- The members of each name are the same, in the same order. -/
def SameByName (ms ns : List (String × Json ν)) : Prop :=
  ∀ k, ms.filter (·.1 = k) = ns.filter (·.1 = k)

/-- No object repeats a name. -/
inductive Distinct : Json ν → Prop
  | null : Distinct .null
  | bool (b : Bool) : Distinct (.bool b)
  | number (n : ν) : Distinct (.number n)
  | string (s : String) : Distinct (.string s)
  | array {vs : List (Json ν)} : (∀ v ∈ vs, Distinct v) → Distinct (.array vs)
  | object {ms : List (String × Json ν)} : (ms.map Prod.fst).Nodup → (∀ m ∈ ms, Distinct m.2) →
    Distinct (.object ms)

theorem filter_mapValues (f : Json ν → Json ν) (ms : List (String × Json ν)) (k : String) :
    (ms.map fun m => (m.1, f m.2)).filter (·.1 = k) = (ms.filter (·.1 = k)).map fun m =>
      (m.1, f m.2) := by
  rw [List.filter_map]
  rfl

/-- The order of members does not matter for the value, but for those of the same name. -/
theorem sorted_eq_of_rearranged (h : Rearranged SameByName v w) : sorted v = sorted w := by
  induction h with
  | refl v => rfl
  | trans _ _ ih ih' => exact ih.trans ih'
  | members hsame =>
    rw [sorted_object, sorted_object]
    refine congrArg _ (SortedMap.collect_eq_collect fun k => ?_)
    rw [filter_mapValues, filter_mapValues, hsame]
  | element before after _ ih =>
    rw [sorted_array, sorted_array, List.map_append, List.map_append, List.map_cons,
      List.map_cons, ih]
  | member before k after _ ih =>
    rw [sorted_object, sorted_object, List.map_append, List.map_append, List.map_cons,
      List.map_cons]
    simp only [ih]

/-- Without repeated names, every rearrangement keeps the order of members of the same name. -/
theorem Rearranged.sameByName (h : Rearranged List.Perm v w) (hv : v.Distinct) :
    Rearranged SameByName v w ∧ w.Distinct := by
  induction h with
  | refl v => exact ⟨.refl v, hv⟩
  | trans _ _ ih ih' =>
    obtain ⟨h, hw⟩ := ih hv
    obtain ⟨h', hu⟩ := ih' hw
    exact ⟨.trans h h', hu⟩
  | members hperm =>
    cases hv with
    | object hnodup hms =>
      refine ⟨.members fun k => SortedMap.filter_eq_of_perm hnodup hperm k,
        .object ((hperm.map _).nodup_iff.mp hnodup) ?_⟩
      exact fun m hm => hms m (hperm.mem_iff.mpr hm)
  | element before after _ ih =>
    cases hv with
    | array hvs =>
      obtain ⟨h, hw⟩ := ih (hvs _ (by simp))
      refine ⟨.element before after h, .array fun u hu => ?_⟩
      rcases List.mem_append.mp hu with hu | hu
      · exact hvs u (by simp [hu])
      rcases List.mem_cons.mp hu with rfl | hu
      · exact hw
      · exact hvs u (by simp [hu])
  | @member v w before k after _ ih =>
    cases hv with
    | object hnodup hms =>
      obtain ⟨h, hw⟩ := ih (hms (k, v) (by simp))
      refine ⟨.member before k after h, .object (by simpa using hnodup) fun u hu => ?_⟩
      rcases List.mem_append.mp hu with hu | hu
      · exact hms u (by simp [hu])
      rcases List.mem_cons.mp hu with rfl | hu
      · exact hw
      · exact hms u (by simp [hu])

theorem Rearranged.symm (h : Rearranged List.Perm v w) : Rearranged List.Perm w v := by
  induction h with
  | refl v => exact .refl v
  | trans _ _ ih ih' => exact .trans ih' ih
  | members hperm => exact .members hperm.symm
  | element before after _ ih => exact .element before after ih
  | member before k after _ ih => exact .member before k after ih

section Elementwise

variable {allowed : List (String × Json ν) → List (String × Json ν) → Prop} {f : Json ν → Json ν}

theorem rearranged_elements {vs : List (Json ν)} (h : ∀ v ∈ vs, Rearranged allowed v (f v))
    (before : List (Json ν)) :
    Rearranged allowed (.array (before ++ vs)) (.array (before ++ vs.map f)) := by
  induction vs generalizing before with
  | nil => exact .refl _
  | cons v vs ih =>
    refine .trans (.element before vs (h v List.mem_cons_self)) ?_
    have htail := ih (fun u hu => h u (List.mem_cons_of_mem _ hu)) (before ++ [f v])
    simpa using htail

/-- Members one after the other; those before are done already. -/
theorem rearranged_members {ms : List (String × Json ν)}
    (h : ∀ m ∈ ms, Rearranged allowed m.2 (f m.2)) (before : List (String × Json ν)) :
    Rearranged allowed (.object (before ++ ms))
      (.object (before ++ ms.map fun m => (m.1, f m.2))) := by
  induction ms generalizing before with
  | nil => exact .refl _
  | cons m ms ih =>
    refine .trans (.member before m.1 ms (h m List.mem_cons_self)) ?_
    have htail := ih (fun u hu => h u (List.mem_cons_of_mem _ hu)) (before ++ [(m.1, f m.2)])
    simpa using htail

end Elementwise

/-- Without repeated names, a value is the document with its members in another order. -/
theorem rearranged_sorted (hv : v.Distinct) : Rearranged List.Perm v (sorted v) := by
  induction v with
  | null | bool | number | string => exact .refl _
  | array vs ih =>
    cases hv with
    | array hvs =>
      rw [sorted_array]
      exact rearranged_elements (fun v hv => ih v hv (hvs v hv)) []
  | object ms ih =>
    cases hv with
    | object hnodup hms =>
      rw [sorted_object]
      refine .trans (rearranged_members (fun m hm => ih m hm (hms m hm)) []) (.members ?_)
      refine (SortedMap.collect_perm ?_).symm
      simpa [Function.comp_def] using hnodup

/-- A value has no repeated names. -/
theorem distinct_sorted (v : Json ν) : (sorted v).Distinct := by
  induction v with
  | null => exact .null
  | bool b => exact .bool b
  | number n => exact .number n
  | string s => exact .string s
  | array vs ih =>
    rw [sorted_array]
    refine .array fun v hv => ?_
    obtain ⟨u, hu, rfl⟩ := List.mem_map.mp hv
    exact ih u hu
  | object ms ih =>
    rw [sorted_object]
    refine .object (SortedMap.nodup_keys (SortedMap.pairwise_collect _)) fun m hm => ?_
    obtain ⟨n, hn, rfl⟩ := List.mem_map.mp (SortedMap.mem_of_mem_collect hm)
    exact ih n hn

/-- The text of the value of a document. -/
def canonical (numerals : Numerals ν) (v : Json ν) : List Char := write numerals (sorted v)

/-- The canonical text tells documents apart, up to the order of the members of their objects. -/
theorem canonical_eq_iff (numerals : Numerals ν) (hv : v.Distinct) (hw : w.Distinct) :
    canonical numerals v = canonical numerals w ↔ Rearranged List.Perm v w := by
  constructor
  · intro h
    have hsorted : sorted v = sorted w := write_injective h
    exact .trans (rearranged_sorted hv) (hsorted ▸ (rearranged_sorted hw).symm)
  · intro h
    rw [canonical, canonical, sorted_eq_of_rearranged (h.sameByName hv).1]

end Json
end BgDesk
