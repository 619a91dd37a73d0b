import Mathlib.Data.List.Induction
import BgDesk.BytesCodec
import BgDesk.Utf8

/-!
# Terminal output

What happens to the output of a shell before it is sent, from `server/terminal_service.rs`. The
reader thread cuts what it reads so that no chunk ends in the middle of a character
(`Utf8ChunkAccumulator`); what arrives is kept in lines, of which the oldest are dropped
(`OutputBuffer`), and a client that comes back is sent the newest of them.

* `findUtf8SplitPoint`, `pushChunk`, `emitted` — from reads to chunks;
* `OutputBuffer.append`, `OutputBuffer.getRecent` — from chunks to the replay;
* `append_suffix`, `getRecent_suffix` — the buffer is the end of what was appended, and the replay
  is the end of the buffer;
* `OutputBuffer.Kept` — a line is valid UTF-8, or the end of one and too long to be replayed whole;
* `utf8_output` — nothing is lost on the way, and no character is cut.
-/

namespace BgDesk
namespace Terminal

open Utf8

def maxOutputBufferSize : ℕ := 1024 * 1024
def maxBufferLines : ℕ := 10000
def defaultReconnectBufferBytes : ℕ := 8 * 1024

def newline : UInt8 := 10

/-! ## Chunks -/

/-- The loop of `find_utf8_split_point`, down from a position. -/
def scanBack (buf : Bytes) (start : ℕ) : ℕ → ℕ
  | 0 => buf.length
  | i + 1 =>
    if i < start then buf.length
    else
      let b := buf.getD i 0
      if b &&& 0x80 = 0 then buf.length
      else if b &&& 0xC0 = 0x80 then scanBack buf start i
      else
        let seqLen :=
          if b &&& 0xE0 = 0xC0 then some 2
          else if b &&& 0xF0 = 0xE0 then some 3
          else if b &&& 0xF8 = 0xF0 then some 4
          else none
        match seqLen with
        | none => buf.length
        | some n => if n ≤ buf.length - i then buf.length else i

/-- `find_utf8_split_point`. -/
def findUtf8SplitPoint (buf : Bytes) : ℕ :=
  if buf = [] then 0 else scanBack buf (buf.length - 3) buf.length

/-- `Utf8ChunkAccumulator`. -/
structure Utf8ChunkAccumulator where
  remainder : Bytes
  deriving DecidableEq

/-- `push_chunk`. -/
def Utf8ChunkAccumulator.pushChunk (chunker : Utf8ChunkAccumulator) (data : Bytes) :
    Utf8ChunkAccumulator × Option Bytes :=
  if data = [] then (chunker, none)
  else
    let hadRemainder := chunker.remainder ≠ []
    let data := if hadRemainder then chunker.remainder ++ data else data
    let split := findUtf8SplitPoint data
    if split = data.length then (⟨[]⟩, some data)
    else if ¬hadRemainder ∧ 0 < split ∧ ¬Valid (data.take split) then (⟨[]⟩, some data)
    else (⟨data.drop split⟩, if data.take split = [] then none else some (data.take split))

/-- `finish`. -/
def Utf8ChunkAccumulator.finish (chunker : Utf8ChunkAccumulator) : Option Bytes :=
  if chunker.remainder = [] then none else some chunker.remainder

/-- The chunks of some reads, and what is held back after them. -/
def pushAll : Utf8ChunkAccumulator → List Bytes → Utf8ChunkAccumulator × List Bytes
  | chunker, [] => (chunker, [])
  | chunker, data :: reads =>
    let (chunker, chunk) := chunker.pushChunk data
    let (chunker, chunks) := pushAll chunker reads
    (chunker, chunk.toList ++ chunks)

/-- What the reader thread sends for some reads, up to the end of the stream. -/
def emitted (reads : List Bytes) : List Bytes :=
  let (chunker, chunks) := pushAll ⟨[]⟩ reads
  chunks ++ chunker.finish.toList

/-! ## What the chunks are -/

/-- At most three bytes are held back. -/
theorem scanBack_bounds (buf : Bytes) (start : ℕ) {i : ℕ} (hi : i ≤ buf.length) :
    scanBack buf start i ≤ buf.length ∧ buf.length ≤ scanBack buf start i + 3 := by
  induction i with
  | zero => exact ⟨le_refl _, Nat.le_add_right _ _⟩
  | succ i ih =>
    rw [scanBack]
    dsimp only
    repeat' split
    all_goals first | exact ih (by omega) | skip
    all_goals refine ⟨by omega, ?_⟩
    all_goals try omega
    rename_i n hseq hshort
    have hn : n ≤ 4 := by
      repeat' split at hseq
      all_goals cases hseq
      all_goals decide
    omega

variable {buf data line : Bytes} {lines : List Bytes}

/-- Bytes that continue a character are passed over. -/
theorem scanBack_skip {start i j : ℕ} (hij : i ≤ j)
    (hskip : ∀ k, i ≤ k → k < j → start ≤ k ∧ Continuation (buf.getD k 0)) :
    scanBack buf start j = scanBack buf start i := by
  induction j, hij using Nat.le_induction with
  | base => rfl
  | succ j hij ih =>
    obtain ⟨hstart, hcont⟩ := hskip j hij (by omega)
    have hmask : buf.getD j 0 &&& 0xC0 = 0x80 := hcont
    have hhigh : ∀ n : Fin 256, Continuation (UInt8.ofNat n) → UInt8.ofNat n &&& 0x80 ≠ 0 := by
      decide +kernel
    have hb := hhigh ⟨(buf.getD j 0).toNat, (buf.getD j 0).toNat_lt⟩
    rw [UInt8.ofNat_toNat] at hb
    rw [scanBack]
    dsimp only
    rw [if_neg (by omega), if_neg (hb hcont), if_pos hmask]
    exact ih fun k hik hkj => hskip k hik (by omega)

/-- The byte that begins a character decides. -/
theorem scanBack_lead {start i : ℕ} (hi : i < buf.length) (hstart : start ≤ i)
    (hlead : ¬Continuation (buf.getD i 0)) (hlength : 0 < leadLength (buf.getD i 0)) :
    scanBack buf start (i + 1) = if leadLength (buf.getD i 0) ≤ buf.length -
      i then buf.length else i := by
  rw [scanBack]
  dsimp only
  rw [if_neg (by omega)]
  rw [leadLength] at hlength ⊢
  generalize buf.getD i 0 = b at hlead hlength ⊢
  rw [Continuation] at hlead
  by_cases hascii : b &&& 0x80 = 0
  · rw [if_pos hascii, if_pos hascii, if_pos (by omega)]
  · rw [if_neg hascii, if_neg hlead, if_neg hascii]
    rw [if_neg hascii] at hlength
    by_cases htwo : b &&& 0xE0 = 0xC0
    · rw [if_pos htwo, if_pos htwo]
    · rw [if_neg htwo, if_neg htwo]
      rw [if_neg htwo] at hlength
      by_cases hthree : b &&& 0xF0 = 0xE0
      · rw [if_pos hthree, if_pos hthree]
      · rw [if_neg hthree, if_neg hthree]
        rw [if_neg hthree] at hlength
        by_cases hfour : b &&& 0xF8 = 0xF0
        · rw [if_pos hfour, if_pos hfour]
        · rw [if_neg hfour] at hlength
          cases hlength

/-- The last character of a text that may be cut. -/
theorem last_character (hne : buf ≠ []) :
    ∀ {more : Bytes}, Valid (buf ++ more) → ∃ before lead seen, buf = before ++ lead :: seen ∧
      ¬Continuation lead ∧
      ∀ b ∈ seen, Continuation b := by
  induction buf using List.reverseRecOn with
  | nil => exact absurd rfl hne
  | append_singleton init x ih =>
    intro more h
    by_cases hx : Continuation x
    · have hinit : init ≠ [] := by
        rintro rfl
        exact h.head hx
      rw [List.append_assoc] at h
      obtain ⟨before, lead, seen, rfl, hlead, hseen⟩ := ih hinit h
      refine ⟨before, lead, seen ++ [x], by simp, hlead, fun b hb => ?_⟩
      rcases List.mem_append.mp hb with hb | hb
      · exact hseen b hb
      · exact List.mem_singleton.mp hb ▸ hx
    · exact ⟨init, x, [], rfl, hx, nofun⟩

/-- **The split point is between two characters** of a text that goes on. -/
theorem findUtf8SplitPoint_valid {more : Bytes} (h : Valid (buf ++ more)) :
    Valid (buf.take (findUtf8SplitPoint buf)) ∧
      Valid (buf.drop (findUtf8SplitPoint buf) ++ more) := by
  rw [findUtf8SplitPoint]
  split
  · rename_i hempty
    rw [hempty] at h ⊢
    exact ⟨valid_nil, h⟩
  · rename_i hne
    obtain ⟨before, lead, seen, rfl, hlead, hseen⟩ := last_character hne h
    rw [List.append_assoc, List.cons_append] at h
    obtain ⟨hbefore, hchar⟩ := valid_split h (fun x hx => Option.some.inj hx ▸ hlead)
    obtain ⟨hle, hall⟩ := valid_lead hchar hseen
    have hmax := leadLength_le lead
    have hlen : (before ++ lead :: seen).length = before.length + (seen.length + 1) := by simp
    have hget : (before ++ lead :: seen).getD before.length 0 = lead := by simp
    have hskip : scanBack (before ++ lead :: seen) (before.length + (seen.length + 1) - 3)
      (before.length + (seen.length + 1)) =
        scanBack (before ++ lead :: seen) (before.length + (seen.length + 1) - 3)
          (before.length + 1) := by
      refine scanBack_skip (by omega) fun k hk hkj => ⟨by omega, ?_⟩
      obtain ⟨d, rfl⟩ := Nat.exists_eq_add_of_le hk
      have hd : d < seen.length := by omega
      rw [List.getD_eq_getElem?_getD, List.getElem?_append_right (by omega), Nat.add_assoc,
        Nat.add_sub_cancel_left,
        Nat.add_comm 1 d, List.getElem?_cons_succ, List.getElem?_eq_getElem hd, Option.getD_some]
      exact hseen _ (List.getElem_mem hd)
    rw [hlen, hskip]
    by_cases hfour : seen.length = 3
    · -- three bytes that continue a character: its first byte is out of sight, and it is complete
      obtain ⟨hdone, hmore⟩ := hall (by omega)
      rw [scanBack, if_pos (by omega)]
      rw [List.take_length, List.drop_length]
      exact ⟨hbefore.append hdone, hmore⟩
    · rw [scanBack_lead (by omega) (by omega) (by rwa [hget]) (by rw [hget]; omega), hget]
      split
      · obtain ⟨hdone, hmore⟩ := hall (by omega)
        rw [List.take_length, List.drop_length]
        exact ⟨hbefore.append hdone, hmore⟩
      · rw [List.take_left, List.drop_left]
        exact ⟨hbefore, hchar⟩

/-- What a push of some bytes does, over what was held back with them: all is passed on, because it
ends with a character or because it is no text; or it is cut at the split point. -/
theorem pushChunk_cases (chunker : Utf8ChunkAccumulator) (hdata : data ≠ []) :
    (chunker.pushChunk data = (⟨[]⟩, some (chunker.remainder ++ data)) ∧
        (findUtf8SplitPoint (chunker.remainder ++ data) = (chunker.remainder ++ data).length ∨
          ¬Valid ((chunker.remainder ++ data).take
            (findUtf8SplitPoint (chunker.remainder ++ data))))) ∨
      ∃ chunk, chunk.getD [] = (chunker.remainder ++ data).take
        (findUtf8SplitPoint (chunker.remainder ++ data)) ∧
        chunker.pushChunk data =
          (⟨(chunker.remainder ++ data).drop (findUtf8SplitPoint (chunker.remainder ++ data))⟩,
            chunk) := by
  have hcombined : (if chunker.remainder ≠ [] then chunker.remainder ++ data else data) =
      chunker.remainder ++ data := by
    split
    · rfl
    · rename_i hempty
      rw [not_not.mp hempty, List.nil_append]
  rw [Utf8ChunkAccumulator.pushChunk, if_neg hdata]
  dsimp only
  rw [hcombined]
  split
  · rename_i hwhole
    exact .inl ⟨rfl, .inl hwhole⟩
  · split
    · rename_i htext
      exact .inl ⟨rfl, .inr htext.2.2⟩
    · refine .inr ⟨_, ?_, rfl⟩
      split
      · rename_i hnone
        exact hnone.symm
      · rfl

theorem pushChunk_append (chunker : Utf8ChunkAccumulator) (data : Bytes) :
    (chunker.pushChunk data).2.getD [] ++ (chunker.pushChunk data).1.remainder =
      chunker.remainder ++ data := by
  by_cases hdata : data = []
  · rw [Utf8ChunkAccumulator.pushChunk, if_pos hdata, hdata, List.append_nil]
    rfl
  · rcases pushChunk_cases chunker hdata with ⟨hpush, -⟩ | ⟨chunk, hchunk, hpush⟩
    · rw [hpush]
      exact List.append_nil _
    · rw [hpush, hchunk]
      exact List.take_append_drop _ _

theorem pushChunk_remainder {chunker : Utf8ChunkAccumulator} (h : chunker.remainder.length ≤ 3)
    (data : Bytes) : (chunker.pushChunk data).1.remainder.length ≤ 3 := by
  by_cases hdata : data = []
  · rw [Utf8ChunkAccumulator.pushChunk, if_pos hdata]
    exact h
  · rcases pushChunk_cases chunker hdata with ⟨hpush, -⟩ | ⟨chunk, -, hpush⟩
    · rw [hpush]
      exact Nat.zero_le 3
    · have hne : chunker.remainder ++ data ≠ [] := fun hnil =>
        hdata (List.append_eq_nil_iff.mp hnil).2
      have hbounds := scanBack_bounds (chunker.remainder ++ data)
        ((chunker.remainder ++ data).length - 3) (le_refl _)
      rw [hpush, List.length_drop, findUtf8SplitPoint, if_neg hne]
      omega

/-- Of a text that goes on, whole characters are passed on. -/
theorem pushChunk_valid {chunker : Utf8ChunkAccumulator} {more : Bytes}
    (h : Valid (chunker.remainder ++ data ++ more)) :
    (∀ chunk ∈ (chunker.pushChunk data).2, Valid chunk) ∧
      Valid ((chunker.pushChunk data).1.remainder ++ more) := by
  by_cases hdata : data = []
  · rw [hdata, List.append_nil] at h
    rw [Utf8ChunkAccumulator.pushChunk, if_pos hdata]
    exact ⟨nofun, h⟩
  · obtain ⟨htake, hdrop⟩ := findUtf8SplitPoint_valid h
    rcases pushChunk_cases chunker hdata with ⟨hpush, hwhole | htext⟩ | ⟨chunk, hchunk, hpush⟩
    · rw [hwhole, List.take_length] at htake
      rw [hwhole, List.drop_length] at hdrop
      rw [hpush]
      exact ⟨fun chunk hchunk => Option.some.inj hchunk ▸ htake, hdrop⟩
    · exact absurd htake htext
    · rw [hpush]
      refine ⟨fun chunk' hchunk' => ?_, hdrop⟩
      obtain rfl : chunk = some chunk' := hchunk'
      rw [Option.getD_some] at hchunk
      rw [hchunk]
      exact htake

theorem toList_flatten (chunk : Option Bytes) : chunk.toList.flatten = chunk.getD [] := by
  cases chunk with
  | none => rfl
  | some c => exact List.append_nil c

theorem pushAll_append (reads : List Bytes) : ∀ chunker : Utf8ChunkAccumulator,
    (pushAll chunker reads).2.flatten ++ (pushAll chunker reads).1.remainder = chunker.remainder ++
      reads.flatten := by
  induction reads with
  | nil => exact fun chunker => (List.append_nil _).symm
  | cons data reads ih =>
    intro chunker
    rw [pushAll]
    dsimp only
    rw [List.flatten_append, toList_flatten, List.append_assoc, ih, ← List.append_assoc,
      pushChunk_append, List.flatten_cons,
      List.append_assoc]

theorem pushAll_remainder (reads : List Bytes) :
    ∀ {chunker : Utf8ChunkAccumulator}, chunker.remainder.length ≤ 3 →
    (pushAll chunker reads).1.remainder.length ≤ 3 := by
  induction reads with
  | nil => exact fun h => h
  | cons data reads ih =>
    intro chunker h
    rw [pushAll]
    exact ih (pushChunk_remainder h data)

theorem pushAll_valid (reads : List Bytes) :
    ∀ {chunker : Utf8ChunkAccumulator}, Valid (chunker.remainder ++ reads.flatten) →
    (∀ chunk ∈ (pushAll chunker reads).2, Valid chunk) ∧
      Valid (pushAll chunker reads).1.remainder := by
  induction reads with
  | nil =>
    intro chunker h
    rw [List.flatten_nil, List.append_nil] at h
    exact ⟨nofun, h⟩
  | cons data reads ih =>
    intro chunker h
    rw [List.flatten_cons, ← List.append_assoc] at h
    obtain ⟨hchunk, hrest⟩ := pushChunk_valid h
    obtain ⟨hchunks, hend⟩ := ih hrest
    rw [pushAll]
    refine ⟨fun chunk hmem => ?_, hend⟩
    rcases List.mem_append.mp hmem with hmem | hmem
    · exact hchunk chunk (Option.mem_toList.mp hmem)
    · exact hchunks chunk hmem

theorem finish_toList_flatten (chunker : Utf8ChunkAccumulator) :
    chunker.finish.toList.flatten = chunker.remainder := by
  rw [toList_flatten, Utf8ChunkAccumulator.finish]
  split
  · rename_i hempty
    exact hempty.symm
  · rfl

theorem emitted_flatten (reads : List Bytes) : (emitted reads).flatten = reads.flatten := by
  rw [emitted]
  dsimp only
  rw [List.flatten_append, finish_toList_flatten, pushAll_append]
  rfl

theorem emitted_valid {reads : List Bytes} (h : Valid reads.flatten) :
    ∀ chunk ∈ emitted reads, Valid chunk := by
  have hstart : Valid ((⟨[]⟩ : Utf8ChunkAccumulator).remainder ++ reads.flatten) := h
  obtain ⟨hchunks, hend⟩ := pushAll_valid reads hstart
  intro chunk hmem
  rcases List.mem_append.mp hmem with hmem | hmem
  · exact hchunks chunk hmem
  · have hfinish := Option.mem_toList.mp hmem
    rw [Utf8ChunkAccumulator.finish] at hfinish
    split at hfinish
    · cases hfinish
    · exact Option.some.inj hfinish ▸ hend

/-! ## The lines that are kept -/

/-- `OutputBuffer`. -/
structure OutputBuffer where
  lines : List Bytes
  totalSize : ℕ
  lastLineIncomplete : Bool
  deriving DecidableEq

def OutputBuffer.new : OutputBuffer := ⟨[], 0, false⟩

/-- The last line is continued, up to its end; with where the rest of the data starts. -/
def OutputBuffer.continueLine (buf : OutputBuffer) (data : Bytes) : OutputBuffer × ℕ :=
  if buf.lastLineIncomplete then
    match buf.lines.getLast? with
    | none => (buf, 0)
    | some lastLine =>
      match data.findIdx? (· = newline) with
      | some newlinePos =>
        ({ lines := buf.lines.dropLast ++ [lastLine ++ data.take (newlinePos + 1)]
           totalSize := buf.totalSize + (newlinePos + 1)
           lastLineIncomplete := false }, newlinePos + 1)
      | none =>
        ({ buf with
            lines := buf.lines.dropLast ++ [lastLine ++ data]
            totalSize := buf.totalSize + data.length }, data.length)
  else (buf, 0)

def OutputBuffer.pushBack (buf : OutputBuffer) (line : Bytes) : OutputBuffer :=
  { buf with totalSize := buf.totalSize + line.length, lines := buf.lines ++ [line] }

/-- The loop over the lines of the rest: only the last may be without a newline. -/
def OutputBuffer.pushLines (endsWithNewline : Bool) : OutputBuffer → List Bytes → OutputBuffer
  | buf, [] => buf
  | buf, [line] =>
    let buf := if !endsWithNewline ∧ line ≠ [] then { buf with lastLineIncomplete := true } else buf
    if line ≠ [] then buf.pushBack (if endsWithNewline then line ++ [newline] else line) else buf
  | buf, line :: next :: lines =>
    pushLines endsWithNewline (buf.pushBack (line ++ [newline])) (next :: lines)

/-- The loop that drops the oldest lines. -/
def trim (totalSize : ℕ) (lastLineIncomplete : Bool) : List Bytes → OutputBuffer
  | [] =>
    if maxOutputBufferSize < totalSize then ⟨[], 0, false⟩ else ⟨[], totalSize, lastLineIncomplete⟩
  | line :: lines =>
    if maxOutputBufferSize < totalSize ∨ maxBufferLines < (line :: lines).length then
      if lines = [] ∧ lastLineIncomplete then
        -- one line that is too long: its newest half is kept
        let line := line.drop (line.length - maxOutputBufferSize / 2)
        ⟨[line], line.length, lastLineIncomplete⟩
      else
        trim (if totalSize < line.length then (lines.map List.length).sum else totalSize -
          line.length)
          (if lines = [] then false else lastLineIncomplete) lines
    else ⟨line :: lines, totalSize, lastLineIncomplete⟩

/-- `append`. -/
def OutputBuffer.append (buf : OutputBuffer) (data : Bytes) : OutputBuffer :=
  if data = [] then buf
  else
    let (buf, start) := buf.continueLine data
    let remaining := data.drop start
    let endsWithNewline := remaining.getLast? = some newline
    let buf := buf.pushLines endsWithNewline (remaining.splitOn newline)
    trim buf.totalSize buf.lastLineIncomplete buf.lines

/-- The loop that skips to the beginning of a character, with the number of bytes that may be
skipped. -/
def alignOffset (line : Bytes) : ℕ → ℕ → ℕ
  | 0, offset => offset
  | n + 1, offset =>
    if offset < line.length ∧ line.getD offset 0 &&& 0xC0 =
      0x80 then alignOffset line n (offset + 1) else offset

/-- The loop of `get_recent`, over the lines from the newest on. -/
def collectRecent (maxBytes : ℕ) : List Bytes → ℕ → List Bytes
  | [], _ => []
  | line :: older, size =>
    if maxBytes < size + line.length then
      if size = 0 ∧ maxBytes < line.length then
        let offset := alignOffset line 3 (line.length - maxBytes)
        if offset < line.length then [line.drop offset] else []
      else []
    else line :: collectRecent maxBytes older (size + line.length)

/-- `get_recent`. -/
def OutputBuffer.getRecent (buf : OutputBuffer) (maxBytes : ℕ) : Bytes :=
  if maxBytes = 0 then [] else (collectRecent maxBytes buf.lines.reverse 0).reverse.flatten

/-- The buffer after some chunks. -/
def OutputBuffer.appendAll (buf : OutputBuffer) (chunks : List Bytes) : OutputBuffer :=
  chunks.foldl OutputBuffer.append buf

/-! ## What the buffer holds -/

theorem continueLine_flatten (buf : OutputBuffer) (data : Bytes) :
    (buf.continueLine data).1.lines.flatten ++ data.drop (buf.continueLine data).2 =
      buf.lines.flatten ++ data := by
  rw [OutputBuffer.continueLine]
  split
  · split
    · rfl
    · rename_i lastLine hlast
      have hlines : buf.lines.flatten = buf.lines.dropLast.flatten ++ lastLine := by
        conv_lhs => rw [← List.dropLast_append_getLast? lastLine hlast]
        rw [List.flatten_concat]
      split
      · rw [List.flatten_concat, hlines]
        simp only [List.append_assoc]
        rw [List.take_append_drop]
      · rw [List.flatten_concat, hlines, List.drop_length]
        simp only [List.append_assoc, List.append_nil]
  · rfl

/-- The lines make up the rest of the data: where it ends with a newline, the last of them is empty.
-/
theorem pushLines_flatten {endsWithNewline : Bool} (hne : lines ≠ [])
    (hends : endsWithNewline = true → lines.getLast? = some []) : ∀ buf : OutputBuffer,
      (buf.pushLines endsWithNewline lines).lines.flatten = buf.lines.flatten ++
        [newline].intercalate lines := by
  induction lines with
  | nil => exact absurd rfl hne
  | cons line lines ih =>
    intro buf
    cases lines with
    | nil =>
      rw [OutputBuffer.pushLines, List.intercalate_singleton]
      by_cases hline : line = []
      · rw [if_neg (not_not.mpr hline), if_neg (fun h => h.2 hline), hline, List.append_nil]
      · have hopen : endsWithNewline = false := by
          by_contra hclosed
          exact hline (Option.some.inj (hends (by simpa using hclosed)))
        rw [if_pos hline, if_pos ⟨by rw [hopen]; rfl, hline⟩, hopen]
        exact List.flatten_concat ..
    | cons next lines =>
      rw [OutputBuffer.pushLines, ih (List.cons_ne_nil _ _) (by simpa using hends),
        List.intercalate_cons_cons]
      rw [OutputBuffer.pushBack, List.flatten_concat]
      simp only [List.append_assoc]

theorem splitOn_flatten (data : Bytes) (buf : OutputBuffer) :
    (buf.pushLines (data.getLast? = some newline) (data.splitOn newline)).lines.flatten =
      buf.lines.flatten ++ data := by
  have hne : data.splitOn newline ≠ [] := List.splitOnP_ne_nil _ _
  rw [pushLines_flatten hne, List.intercalate_splitOn]
  intro hends
  obtain ⟨before, rfl⟩ := List.getLast?_eq_some_iff.mp (of_decide_eq_true hends)
  rw [List.splitOn, List.splitOnP_append_cons (p := (· == newline)) before []
    (beq_self_eq_true newline), List.splitOnP_nil,
    List.getLast?_concat]

theorem trim_suffix (lines : List Bytes) :
    ∀ (totalSize : ℕ) (b : Bool), (trim totalSize b lines).lines.flatten <:+ lines.flatten := by
  induction lines with
  | nil =>
    intro totalSize b
    rw [trim]
    split
    · exact List.suffix_refl _
    · exact List.suffix_refl _
  | cons line lines ih =>
    intro totalSize b
    rw [trim]
    split
    · split
      · rename_i honly
        rw [honly.1, List.flatten_singleton, List.flatten_singleton]
        exact List.drop_suffix _ _
      · rw [List.flatten_cons]
        exact (ih _ _).trans (List.suffix_append _ _)
    · exact List.suffix_refl _

/-- **The buffer is the end of what was appended.** -/
theorem append_suffix (buf : OutputBuffer) (data : Bytes) :
    (buf.append data).lines.flatten <:+ buf.lines.flatten ++ data := by
  rw [OutputBuffer.append]
  split
  · rename_i hempty
    subst hempty
    exact ⟨[], (List.append_nil _).symm⟩
  · dsimp only
    rw [← continueLine_flatten buf data, ← splitOn_flatten]
    exact trim_suffix _ _ _

theorem appendAll_suffix (chunks : List Bytes) : ∀ buf : OutputBuffer,
    (buf.appendAll chunks).lines.flatten <:+ buf.lines.flatten ++ chunks.flatten := by
  induction chunks with
  | nil =>
    intro buf
    rw [List.flatten_nil, List.append_nil]
    exact List.suffix_refl _
  | cons chunk chunks ih =>
    intro buf
    rw [List.flatten_cons, ← List.append_assoc]
    exact (ih (buf.append chunk)).trans (List.suffix_append_self_iff.mpr (append_suffix buf chunk))

theorem collectRecent_suffix (maxBytes : ℕ) (lines : List Bytes) : ∀ size,
    (collectRecent maxBytes lines size).reverse.flatten <:+ lines.reverse.flatten := by
  induction lines with
  | nil => exact fun _ => List.suffix_refl _
  | cons line older ih =>
    intro size
    rw [List.reverse_cons, List.flatten_concat, collectRecent]
    split
    · split
      · dsimp only
        split
        · rw [List.reverse_singleton, List.flatten_singleton]
          exact (List.drop_suffix _ _).trans (List.suffix_append _ _)
        · exact List.nil_suffix
      · exact List.nil_suffix
    · rw [List.reverse_cons, List.flatten_concat]
      exact List.suffix_append_self_iff.mpr (ih _)

/-- **The replay is the end of the buffer.** -/
theorem getRecent_suffix (buf : OutputBuffer) (maxBytes : ℕ) :
    buf.getRecent maxBytes <:+ buf.lines.flatten := by
  rw [OutputBuffer.getRecent]
  split
  · exact List.nil_suffix
  · have hsuffix := collectRecent_suffix maxBytes buf.lines.reverse 0
    rwa [List.reverse_reverse] at hsuffix

/-! ## What is replayed -/

/-- A newline is a character of its own. -/
theorem valid_newline {a b : Bytes} (h : Valid (a ++ newline :: b)) :
    Valid a ∧ Valid [newline] ∧ Valid b := by
  obtain ⟨ha, hb⟩ := valid_split h (fun x hx => Option.some.inj hx ▸ by decide)
  have hnext : Valid (newline :: ([] ++ b)) := hb
  exact ⟨ha, (valid_lead hnext nofun).2 (by decide)⟩

/-- The lines of a text are texts. -/
theorem splitOn_valid (h : Valid data) : ∀ line ∈ data.splitOn newline, Valid line := by
  induction hn : data.length using Nat.strongRecOn generalizing data with
  | _ n ih =>
    by_cases hmem : newline ∈ data
    · obtain ⟨a, b, rfl⟩ := List.append_of_mem hmem
      obtain ⟨ha, -, hb⟩ := valid_newline h
      rw [List.length_append, List.length_cons] at hn
      intro line hline
      rw [List.splitOn, List.splitOnP_append_cons (p := (· == newline))
        a b (beq_self_eq_true newline)] at hline
      rcases List.mem_append.mp hline with hline | hline
      · exact ih a.length (by omega) ha rfl line hline
      · exact ih b.length (by omega) hb rfl line hline
    · intro line hline
      rw [List.splitOn, List.splitOnP_eq_singleton] at hline
      · exact List.mem_singleton.mp hline ▸ h
      · intro x hx
        rw [beq_eq_false_iff_ne]
        exact fun heq => hmem (heq ▸ hx)

/-- A line that may be replayed: it is a text, or the end of one and so long that it is cut again.
-/
def Replayable (line : Bytes) : Prop :=
  Valid line ∨ (∃ before, Valid (before ++ line)) ∧ defaultReconnectBufferBytes < line.length

theorem Replayable.append (h : Replayable line) (hdata : Valid data) :
    Replayable (line ++ data) := by
  rcases h with hline | ⟨⟨before, hbefore⟩, hlong⟩
  · exact .inl (hline.append hdata)
  · refine .inr ⟨⟨before, ?_⟩, ?_⟩
    · rw [← List.append_assoc]
      exact hbefore.append hdata
    · rw [List.length_append]
      omega

theorem Replayable.before (h : Replayable line) : ∃ before, Valid (before ++ line) := by
  rcases h with hline | ⟨hbefore, -⟩
  · exact ⟨[], hline⟩
  · exact hbefore

/-- The newest half of a line that is too long. -/
theorem Replayable.cut (h : Replayable line) (hlong : maxOutputBufferSize < line.length) :
    Replayable (line.drop (line.length - maxOutputBufferSize / 2)) := by
  have hmax : maxOutputBufferSize = 1048576 := rfl
  have hreplay : defaultReconnectBufferBytes = 8192 := rfl
  obtain ⟨before, hbefore⟩ := h.before
  refine .inr ⟨⟨before ++ line.take (line.length - maxOutputBufferSize / 2), ?_⟩, ?_⟩
  · rw [List.append_assoc, List.take_append_drop]
    exact hbefore
  · rw [List.length_drop]
    omega

/-- What every append preserves. -/
structure OutputBuffer.Kept (buf : OutputBuffer) : Prop where
  size : buf.totalSize = (buf.lines.map List.length).sum
  lines : ∀ line ∈ buf.lines, Replayable line

theorem OutputBuffer.Kept.pushBack {buf : OutputBuffer} (h : buf.Kept) (hline : Valid line) :
    (buf.pushBack line).Kept where
  size := by simp [OutputBuffer.pushBack, h.size]
  lines := fun l hl => by
    rcases List.mem_append.mp hl with hl | hl
    · exact h.lines l hl
    · exact .inl (List.mem_singleton.mp hl ▸ hline)

/-- The last line is continued by a text, and the rest of the data is one. -/
theorem OutputBuffer.Kept.continueLine {buf : OutputBuffer} (h : buf.Kept) (hdata : Valid data) :
    (buf.continueLine data).1.Kept ∧ Valid (data.drop (buf.continueLine data).2) := by
  rw [OutputBuffer.continueLine]
  split
  · split
    · exact ⟨h, hdata⟩
    · rename_i lastLine hlast
      have hlines : buf.lines = buf.lines.dropLast ++ [lastLine] :=
        (List.dropLast_append_getLast? lastLine hlast).symm
      -- whatever text is put to the last line
      have hmore : ∀ more b, Valid more →
          OutputBuffer.Kept ⟨buf.lines.dropLast ++ [lastLine ++ more], buf.totalSize + more.length,
            b⟩ := fun more b hvalid => by
        refine ⟨?_, fun line hline => ?_⟩
        · rw [h.size, hlines]
          simp [Nat.add_assoc]
        · rcases List.mem_append.mp hline with hline | hline
          · exact h.lines line (List.dropLast_subset _ hline)
          · rw [List.mem_singleton.mp hline]
            exact (h.lines lastLine (hlines ▸ List.mem_append_right _
              (List.mem_singleton_self _))).append hvalid
      split
      · rename_i newlinePos hpos
        obtain ⟨hlt, hnewline, -⟩ := List.findIdx?_eq_some_iff_getElem.mp hpos
        have hsplit : data = data.take newlinePos ++ newline :: data.drop (newlinePos + 1) := by
          rw [← of_decide_eq_true hnewline, ← List.drop_eq_getElem_cons hlt, List.take_append_drop]
        have htake : data.take (newlinePos + 1) = data.take newlinePos ++ [newline] := by
          rw [List.take_add_one, List.getElem?_eq_getElem hlt, of_decide_eq_true hnewline]
          rfl
        rw [hsplit] at hdata
        obtain ⟨hfirst, hchar, hrest⟩ := valid_newline hdata
        have hlength : (data.take (newlinePos + 1)).length = newlinePos + 1 := by
          rw [List.length_take]
          omega
        have hkept := hmore (data.take (newlinePos + 1))
          false (by rw [htake]; exact hfirst.append hchar)
        rw [hlength] at hkept
        exact ⟨hkept, hrest⟩
      · refine ⟨hmore data buf.lastLineIncomplete hdata, ?_⟩
        rw [List.drop_length]
        exact valid_nil
  · exact ⟨h, hdata⟩

theorem OutputBuffer.Kept.pushLines (endsWithNewline : Bool) (hlines : ∀ line ∈ lines, Valid line) :
    ∀ {buf : OutputBuffer}, buf.Kept → (buf.pushLines endsWithNewline lines).Kept := by
  have hnewline : Valid [newline] := by decide +kernel
  induction lines with
  | nil =>
    intro buf h
    exact h
  | cons line lines ih =>
    intro buf h
    obtain ⟨hline, hrest⟩ := List.forall_mem_cons.mp hlines
    cases lines with
    | nil =>
      rw [OutputBuffer.pushLines]
      have hmark : OutputBuffer.Kept (if !endsWithNewline ∧
          line ≠ [] then { buf with lastLineIncomplete := true } else buf) := by
        split
        · exact ⟨h.size, h.lines⟩
        · exact h
      split
      · refine hmark.pushBack ?_
        split
        · exact hline.append hnewline
        · exact hline
      · exact hmark
    | cons next lines =>
      rw [OutputBuffer.pushLines]
      exact ih hrest (h.pushBack (hline.append hnewline))

theorem kept_singleton (h : Replayable line) (b : Bool) :
    OutputBuffer.Kept ⟨[line], line.length, b⟩ where
  size := by simp
  lines := fun l hl => List.mem_singleton.mp hl ▸ h

/-- Old lines are dropped, and the only line is cut when it is too long. -/
theorem trim_kept (hlines : ∀ line ∈ lines, Replayable line) : ∀ {lastLineIncomplete : Bool},
      (trim (lines.map List.length).sum lastLineIncomplete lines).Kept := by
  induction lines with
  | nil =>
    intro b
    rw [trim]
    split
    · exact ⟨rfl, nofun⟩
    · exact ⟨rfl, nofun⟩
  | cons line lines ih =>
    intro b
    obtain ⟨hline, hrest⟩ := List.forall_mem_cons.mp hlines
    rw [trim]
    split
    · rename_i hfull
      split
      · rename_i honly
        have hlong : maxOutputBufferSize < line.length := by
          rw [honly.1] at hfull
          rcases hfull with hsize | hcount
          · rwa [List.map_singleton, List.sum_singleton] at hsize
          · have hmax : maxBufferLines = 10000 := rfl
            rw [List.length_singleton] at hcount
            omega
        exact kept_singleton (hline.cut hlong) b
      · have hsum :
          (if ((line :: lines).map List.length).sum < line.length then (lines.map List.length).sum
            else ((line :: lines).map List.length).sum - line.length) =
              (lines.map List.length).sum := by
          rw [List.map_cons, List.sum_cons]
          split <;> omega
        rw [hsum]
        exact ih hrest
    · exact ⟨rfl, hlines⟩

theorem OutputBuffer.Kept.append {buf : OutputBuffer} (h : buf.Kept) (hdata : Valid data) :
    (buf.append data).Kept := by
  rw [OutputBuffer.append]
  split
  · exact h
  · obtain ⟨hcontinued, hrest⟩ := h.continueLine hdata
    have hpushed :=
      OutputBuffer.Kept.pushLines ((data.drop (buf.continueLine data).2).getLast? = some newline)
      (splitOn_valid hrest) hcontinued
    dsimp only
    rw [hpushed.size]
    exact trim_kept hpushed.lines

/-- The bytes that end the character that was cut are skipped. -/
theorem drop_alignOffset {tail rest : Bytes} (htail : ∀ b ∈ tail, Continuation b)
    (hrest : ∀ b ∈ rest.head?, ¬Continuation b) :
    ∀ {n offset : ℕ}, tail.length ≤ n → line.drop offset = tail ++ rest →
      line.drop (alignOffset line n offset) = rest := by
  induction tail with
  | nil =>
    intro n offset _ hdrop
    cases n with
    | zero => exact hdrop
    | succ n =>
      rw [alignOffset, if_neg]
      · exact hdrop
      · rintro ⟨hlt, hcont⟩
        rw [List.drop_eq_getElem_cons hlt, List.nil_append] at hdrop
        refine hrest _ (List.head?_eq_some_iff.mpr ⟨_, hdrop.symm⟩) ?_
        rwa [List.getD_eq_getElem _ _ hlt] at hcont
  | cons x tail ih =>
    intro n offset hlength hdrop
    obtain ⟨hx, htail⟩ := List.forall_mem_cons.mp htail
    have hlt : offset < line.length := by
      by_contra hge
      rw [List.drop_eq_nil_of_le (by omega)] at hdrop
      cases hdrop
    rw [List.drop_eq_getElem_cons hlt, List.cons_append] at hdrop
    obtain ⟨hhead, hrest⟩ := List.cons.inj hdrop
    cases n with
    | zero => cases hlength
    | succ n =>
      rw [alignOffset, if_pos ⟨hlt, by rw [List.getD_eq_getElem _ _ hlt, hhead]; exact hx⟩]
      exact ih htail (by simpa using hlength) hrest

/-- A line that is cut and aligned is a text. -/
theorem alignOffset_valid (h : Replayable line) (offset : ℕ) :
    Valid (line.drop (alignOffset line 3 offset)) := by
  obtain ⟨before, hbefore⟩ := h.before
  obtain ⟨tail, rest, hsplit, hshort, htail, -, hrest⟩ :=
    valid_cut hbefore (before ++ line.take offset) (line.drop offset)
    (by rw [List.append_assoc, List.take_append_drop])
  rw [drop_alignOffset htail _ hshort hsplit]
  · exact hrest
  · cases rest with
    | nil => exact nofun
    | cons x rest => exact fun b hb => Option.some.inj hb ▸ hrest.head

theorem collectRecent_valid (h : ∀ line ∈ lines, Replayable line) :
    ∀ size, ∀ chunk ∈ collectRecent defaultReconnectBufferBytes lines size, Valid chunk := by
  induction lines with
  | nil => exact fun _ => nofun
  | cons line older ih =>
    intro size chunk hchunk
    obtain ⟨hline, holder⟩ := List.forall_mem_cons.mp h
    rw [collectRecent] at hchunk
    split at hchunk
    · split at hchunk
      · dsimp only at hchunk
        split at hchunk
        · rw [List.mem_singleton.mp hchunk]
          exact alignOffset_valid hline _
        · cases hchunk
      · cases hchunk
    · rcases List.mem_cons.mp hchunk with rfl | hchunk
      · rcases hline with hvalid | ⟨-, hlong⟩
        · exact hvalid
        · omega
      · exact ih holder _ chunk hchunk

theorem OutputBuffer.Kept.getRecent {buf : OutputBuffer} (h : buf.Kept) :
    Valid (buf.getRecent defaultReconnectBufferBytes) := by
  rw [OutputBuffer.getRecent]
  split
  · exact valid_nil
  · refine valid_flatten fun chunk hchunk => ?_
    exact collectRecent_valid (fun line hline => h.lines line (List.mem_reverse.mp hline))
      0 chunk (List.mem_reverse.mp hchunk)

theorem OutputBuffer.Kept.appendAll {chunks : List Bytes}
    (hchunks : ∀ chunk ∈ chunks, Valid chunk) :
    ∀ {buf : OutputBuffer}, buf.Kept → (buf.appendAll chunks).Kept := by
  induction chunks with
  | nil =>
    intro buf h
    exact h
  | cons chunk chunks ih =>
    intro buf h
    obtain ⟨hchunk, hrest⟩ := List.forall_mem_cons.mp hchunks
    exact ih hrest (h.append hchunk)

/-- **UTF-8 safety of terminal output**: however a stream is split into reads, the chunks are the
stream, and no more than three bytes are held back; and if the stream is valid UTF-8, so is each
chunk, and so is the replay, whichever of the chunks the full channel refused. -/
theorem utf8_output (reads : List Bytes) :
    (emitted reads).flatten = reads.flatten ∧ (pushAll ⟨[]⟩ reads).1.remainder.length ≤ 3 ∧
      (Valid reads.flatten → (∀ chunk ∈ emitted reads, Valid chunk) ∧
        ∀ surviving, surviving.Sublist (emitted reads) →
          Valid ((OutputBuffer.new.appendAll surviving).getRecent
            defaultReconnectBufferBytes)) := by
  refine ⟨emitted_flatten reads, pushAll_remainder reads (Nat.zero_le 3), fun hvalid => ?_⟩
  have hchunks := emitted_valid hvalid
  refine ⟨hchunks, fun surviving hsurviving => ?_⟩
  have hnew : OutputBuffer.new.Kept := ⟨rfl, nofun⟩
  exact (OutputBuffer.Kept.appendAll (fun chunk hchunk => hchunks chunk (hsurviving.subset hchunk))
    hnew).getRecent

/-- A character of three bytes in three reads, and a newline: the replay is valid whichever chunk is
lost. -/
theorem utf8_output_split : Valid [0xE4, 0xB8, 0xAD, 10] ∧ ∀ surviving,
      surviving.Sublist (emitted [[0xE4], [0xB8], [0xAD, 10]]) →
      Valid ((OutputBuffer.new.appendAll surviving).getRecent defaultReconnectBufferBytes) := by
  have hvalid : Valid [0xE4, 0xB8, 0xAD, 10] := ⟨['中', '\n'], by decide +kernel⟩
  exact ⟨hvalid, ((utf8_output [[0xE4], [0xB8], [0xAD, 10]]).2.2 hvalid).2⟩

end Terminal
end BgDesk
