import BgDesk.TerminalOutput

/-!
# The replay buffer of a terminal

The representation of `OutputBuffer` (`server/terminal_service.rs`) over every history of appends,
and what trimming takes away.

* `Lines` — the lines that are kept: all end in a newline, but for an unfinished one at the end;
* `OutputBuffer.extend` — what `append` has before it trims;
* `OutputBuffer.trimPass`, `trimLoop` — the loop that trims, pass by pass, with its error branches;
* `append_invariant` — the representation of the buffer after any appends;
* `newest_kept_iff` — when the newest chunk survives the trimming.
-/

namespace BgDesk
namespace Terminal

/-! ## Lines -/

/-- A line with its newline. -/
def Whole (line : Bytes) : Prop := ∃ body, newline ∉ body ∧ line = body ++ [newline]

/-- Whole lines; and after them an unfinished one, if the flag says so. -/
inductive Lines : List Bytes → Bool → Prop where
  | nil : Lines [] false
  | unfinished {line : Bytes} (hne : line ≠ []) (hopen : newline ∉ line) : Lines [line] true
  | cons {line : Bytes} {lines : List Bytes} {b : Bool} (hwhole : Whole line)
    (hlines : Lines lines b) : Lines (line :: lines) b

variable {data line : Bytes} {b : Bool} {buf : OutputBuffer}

theorem Whole.ne_nil (h : Whole line) : line ≠ [] := by
  obtain ⟨body, -, rfl⟩ := h
  simp

theorem Whole.getLast? (h : Whole line) : line.getLast? = some newline := by
  obtain ⟨body, -, rfl⟩ := h
  exact List.getLast?_concat

theorem Lines.append {done lines : List Bytes} (hdone : ∀ line ∈ done, Whole line)
    (h : Lines lines b) : Lines (done ++ lines) b := by
  induction done with
  | nil => exact h
  | cons line done ih =>
    obtain ⟨hline, hrest⟩ := List.forall_mem_cons.mp hdone
    exact .cons hline (ih hrest)

/-- Without an unfinished line all lines are whole. -/
theorem Lines.whole {lines : List Bytes} (h : Lines lines false) : ∀ line ∈ lines, Whole line := by
  generalize hb : false = b at h
  induction h with
  | nil => exact nofun
  | unfinished _ _ => cases hb
  | cons hwhole _ ih => exact List.forall_mem_cons.mpr ⟨hwhole, ih hb⟩

/-- The unfinished line is the last. -/
theorem Lines.last {lines : List Bytes} (h : Lines lines true) :
    ∃ done line, lines = done ++ [line] ∧ (∀ l ∈ done, Whole l) ∧ line ≠ [] ∧ newline ∉ line := by
  generalize hb : true = b at h
  induction h with
  | nil => cases hb
  | unfinished hne hopen => exact ⟨[], _, rfl, nofun, hne, hopen⟩
  | cons hwhole _ ih =>
    obtain ⟨done, line, rfl, hdone, hline⟩ := ih hb
    exact ⟨_ :: done, line, rfl, List.forall_mem_cons.mpr ⟨hwhole, hdone⟩, hline⟩

theorem Lines.ne_nil {lines : List Bytes} (h : Lines lines b) : ∀ line ∈ lines, line ≠ [] := by
  induction h with
  | nil => exact nofun
  | unfinished hne _ => exact List.forall_mem_singleton.mpr hne
  | cons hwhole _ ih => exact List.forall_mem_cons.mpr ⟨hwhole.ne_nil, ih⟩

/-- No more lines than bytes. -/
theorem Lines.length_le {lines : List Bytes} (h : Lines lines b) :
    lines.length ≤ lines.flatten.length := by
  induction h with
  | nil => exact le_rfl
  | unfinished hne _ =>
    rw [List.flatten_singleton]
    exact List.length_pos_iff.mpr hne
  | cons hwhole _ ih =>
    have := List.length_pos_iff.mpr hwhole.ne_nil
    rw [List.length_cons, List.flatten_cons, List.length_append]
    omega

/-- A newline is only at the end of a line. -/
theorem Lines.newline_last {lines : List Bytes} (h : Lines lines b) :
    ∀ line ∈ lines, newline ∉ line.dropLast := by
  induction h with
  | nil => exact nofun
  | unfinished _ hopen =>
    exact List.forall_mem_singleton.mpr fun hmem => hopen (List.dropLast_subset _ hmem)
  | cons hwhole _ ih =>
    refine List.forall_mem_cons.mpr ⟨?_, ih⟩
    obtain ⟨body, hbody, rfl⟩ := hwhole
    rwa [List.dropLast_concat]

/-- Every line but the last ends in a newline. -/
theorem Lines.dropLast {lines : List Bytes} (h : Lines lines b) :
    ∀ line ∈ lines.dropLast, line.getLast? = some newline := by
  induction h with
  | nil => exact nofun
  | unfinished _ _ => exact nofun
  | @cons line lines _ hwhole hlines ih =>
    cases lines with
    | nil => exact nofun
    | cons next lines =>
      rw [List.dropLast_cons_cons]
      exact List.forall_mem_cons.mpr ⟨hwhole.getLast?, ih⟩

/-- The last lacks one exactly when the flag is set. -/
theorem Lines.flag_iff {lines : List Bytes} (h : Lines lines b) :
    b = true ↔ ∃ line, lines.getLast? = some line ∧ line.getLast? ≠ some newline := by
  cases b with
  | true =>
    obtain ⟨done, line, rfl, -, -, hopen⟩ := h.last
    refine iff_of_true rfl ⟨line, List.getLast?_concat,
      fun hlast => hopen (List.mem_of_getLast? hlast)⟩
  | false =>
    refine iff_of_false nofun ?_
    rintro ⟨line, hline, hlast⟩
    exact hlast (h.whole line (List.mem_of_getLast? hline)).getLast?

/-! ## Appending -/

/-- The lines of data that follows whole lines. -/
theorem pushLines_lines {endsWithNewline : Bool} {pieces : List Bytes} (hne : pieces ≠ [])
    (hpieces : ∀ piece ∈ pieces, newline ∉ piece)
    (hends : endsWithNewline = true → pieces.getLast? = some []) :
    ∀ {buf : OutputBuffer}, buf.lastLineIncomplete = false →
      ∃ rest b, buf.pushLines endsWithNewline pieces =
        ⟨buf.lines ++ rest, buf.totalSize + rest.flatten.length, b⟩ ∧ Lines rest b := by
  induction pieces with
  | nil => exact absurd rfl hne
  | cons line pieces ih =>
    intro buf hflag
    obtain ⟨hline, hrest⟩ := List.forall_mem_cons.mp hpieces
    cases pieces with
    | nil =>
      rw [OutputBuffer.pushLines]
      by_cases hempty : line = []
      · rw [if_neg (not_not.mpr hempty), if_neg fun h => h.2 hempty]
        exact ⟨[], false, by simp [← hflag], .nil⟩
      · have hopen : endsWithNewline = false := by
          by_contra hclosed
          exact hempty (Option.some.inj (hends (by simpa using hclosed)))
        rw [if_pos hempty, if_pos ⟨by rw [hopen]; rfl, hempty⟩, hopen]
        exact ⟨[line], true, by simp [OutputBuffer.pushBack], .unfinished hempty hline⟩
    | cons next pieces =>
      rw [OutputBuffer.pushLines]
      obtain ⟨rest, b, hpush, hlines⟩ := ih (List.cons_ne_nil _ _) hrest (by simpa using hends)
        (show (buf.pushBack (line ++ [newline])).lastLineIncomplete = false from hflag)
      refine ⟨(line ++ [newline]) :: rest, b, ?_, .cons ⟨line, hline, rfl⟩ hlines⟩
      rw [hpush, OutputBuffer.pushBack, List.flatten_cons]
      simp [Nat.add_assoc, Nat.add_comm 1]

/-- No piece of data has a newline. -/
theorem newline_notMem_splitOn (data : Bytes) :
    ∀ piece ∈ data.splitOn newline, newline ∉ piece := by
  induction data with
  | nil => simp [List.splitOn_nil]
  | cons x data ih =>
    rw [List.splitOn_cons_eq_if_modifyHead]
    split
    · exact List.forall_mem_cons.mpr ⟨List.not_mem_nil, ih⟩
    · next hx =>
      cases hpieces : data.splitOn newline with
      | nil => exact nofun
      | cons first rest =>
        rw [hpieces] at ih
        obtain ⟨hfirst, hrest⟩ := List.forall_mem_cons.mp ih
        refine List.forall_mem_cons.mpr ⟨fun hmem => ?_, hrest⟩
        rcases List.mem_cons.mp hmem with rfl | hmem
        · exact hx (beq_self_eq_true _)
        · exact hfirst hmem

/-- What `append` has when it comes to trim. -/
def OutputBuffer.extend (buf : OutputBuffer) (data : Bytes) : OutputBuffer :=
  let (buf, start) := buf.continueLine data
  let remaining := data.drop start
  buf.pushLines (remaining.getLast? = some newline) (remaining.splitOn newline)

theorem append_eq (buf : OutputBuffer) (hdata : data ≠ []) :
    buf.append data = trim (buf.extend data).totalSize (buf.extend data).lastLineIncomplete
      (buf.extend data).lines :=
  if_neg hdata

/-- Data after whole lines. -/
theorem pushLines_data (data : Bytes) (hflag : buf.lastLineIncomplete = false) :
    ∃ rest b, buf.pushLines (data.getLast? = some newline) (data.splitOn newline) =
      ⟨buf.lines ++ rest, buf.totalSize + data.length, b⟩ ∧ rest.flatten = data ∧ Lines rest b := by
  have hne : data.splitOn newline ≠ [] := List.splitOnP_ne_nil _ _
  have hends : decide (data.getLast? = some newline) = true →
      (data.splitOn newline).getLast? = some [] := by
    intro hends
    obtain ⟨before, rfl⟩ := List.getLast?_eq_some_iff.mp (of_decide_eq_true hends)
    rw [List.splitOn, List.splitOnP_append_cons (p := (· == newline)) before []
      (beq_self_eq_true newline), List.splitOnP_nil,
      List.getLast?_concat]
  obtain ⟨rest, b, hpush, hlines⟩ := pushLines_lines hne (newline_notMem_splitOn data) hends hflag
  have hflatten := splitOn_flatten data buf
  rw [hpush, List.flatten_append] at hflatten
  have hrest := List.append_cancel_left hflatten
  exact ⟨rest, b, by rw [hpush, hrest], hrest, hlines⟩

theorem extend_flatten (buf : OutputBuffer) (data : Bytes) :
    (buf.extend data).lines.flatten = buf.lines.flatten ++ data := by
  rw [← continueLine_flatten buf data, ← splitOn_flatten]
  rfl

/-- What data does to the lines: it follows whole lines; or it ends an unfinished line, and the rest
follows; or it continues it. -/
inductive Extends (buf : OutputBuffer) (data : Bytes) : OutputBuffer → Prop where
  | follows {rest : List Bytes} {b : Bool} (hflag : buf.lastLineIncomplete = false)
    (hrest : rest.flatten = data)
      (hlines : Lines rest b) : Extends buf data ⟨buf.lines ++ rest, buf.totalSize + data.length, b⟩
  | ends {done rest : List Bytes} {line first second : Bytes} {b : Bool}
    (hflag : buf.lastLineIncomplete = true)
      (hlast : buf.lines = done ++ [line]) (hdone : ∀ l ∈ done, Whole l)
        (hdata : data = first ++ second)
      (hfirst : first ≠ []) (hwhole : Whole (line ++ first)) (hrest : rest.flatten = second)
        (hlines : Lines rest b) :
      Extends buf data ⟨done ++ (line ++ first) :: rest, buf.totalSize + data.length, b⟩
  | continues {done : List Bytes} {line : Bytes} (hflag : buf.lastLineIncomplete = true)
    (hlast : buf.lines = done ++ [line])
      (hdone : ∀ l ∈ done, Whole l) (hopen : newline ∉ line ++ data) :
      Extends buf data ⟨done ++ [line ++ data], buf.totalSize + data.length, true⟩

theorem extend_extends (h : Lines buf.lines buf.lastLineIncomplete) (data : Bytes) :
    Extends buf data (buf.extend data) := by
  cases hflag : buf.lastLineIncomplete with
  | false =>
    have hcontinue : buf.continueLine data = (buf, 0) := by
      rw [OutputBuffer.continueLine, hflag, if_neg (by rintro ⟨⟩)]
    obtain ⟨rest, b, hpush, hrest, hlines⟩ := pushLines_data data hflag
    rw [OutputBuffer.extend, hcontinue]
    dsimp only
    rw [List.drop_zero, hpush]
    exact .follows hflag hrest hlines
  | true =>
    rw [hflag] at h
    obtain ⟨done, line, hlast, hdone, -, hopen⟩ := h.last
    have hline : buf.lines.getLast? = some line := by rw [hlast, List.getLast?_concat]
    cases hpos : data.findIdx? (· = newline) with
    | none =>
      have hcontinue : buf.continueLine data =
          ({ buf with lines := done ++ [line ++ data], totalSize := buf.totalSize + data.length },
            data.length) := by
        rw [OutputBuffer.continueLine, if_pos hflag, hline, hpos, hlast, List.dropLast_concat]
      have hnot : newline ∉ data :=
        fun hmem => by simpa using List.findIdx?_eq_none_iff.mp hpos newline hmem
      rw [OutputBuffer.extend, hcontinue]
      dsimp only
      rw [List.drop_length, hflag]
      exact .continues hflag hlast hdone (by simp [hopen, hnot])
    | some newlinePos =>
      obtain ⟨hlt, hnewline, hbefore⟩ := List.findIdx?_eq_some_iff_getElem.mp hpos
      have htake : data.take (newlinePos + 1) = data.take newlinePos ++ [newline] := by
        rw [List.take_add_one, List.getElem?_eq_getElem hlt, of_decide_eq_true hnewline]
        rfl
      have hnot : newline ∉ data.take newlinePos := by
        intro hmem
        obtain ⟨j, hj, hjn⟩ := List.mem_iff_getElem.mp hmem
        rw [List.length_take] at hj
        rw [List.getElem_take] at hjn
        exact hbefore j (by omega) (decide_eq_true hjn)
      have hcontinue : buf.continueLine data =
          (⟨done ++ [line ++ data.take (newlinePos + 1)], buf.totalSize + (newlinePos + 1), false⟩,
            newlinePos + 1) := by
        rw [OutputBuffer.continueLine, if_pos hflag, hline, hpos, hlast, List.dropLast_concat]
      obtain ⟨rest, b, hpush, hrest, hlines⟩ := pushLines_data (data.drop (newlinePos + 1))
        (rfl : (OutputBuffer.mk (done ++ [line ++ data.take (newlinePos + 1)])
          (buf.totalSize + (newlinePos + 1))
          false).lastLineIncomplete = false)
      have hlength : newlinePos + 1 + (data.drop (newlinePos + 1)).length = data.length := by
        rw [List.length_drop]
        omega
      rw [OutputBuffer.extend, hcontinue]
      dsimp only
      rw [hpush, List.append_assoc, List.singleton_append, Nat.add_assoc, hlength]
      exact .ends hflag hlast hdone (List.take_append_drop _ _).symm (by simp [htake])
        ⟨line ++ data.take newlinePos, by simp [hopen, hnot], by rw [htake, List.append_assoc]⟩
          hrest hlines

/-- The number of bytes of some lines. -/
def size (lines : List Bytes) : ℕ := (lines.map List.length).sum

theorem size_eq (lines : List Bytes) : size lines = lines.flatten.length := List.length_flatten.symm

theorem size_cons (line : Bytes) (lines : List Bytes) :
    size (line :: lines) = line.length + size lines := by
  rw [size, size, List.map_cons, List.sum_cons]

theorem size_singleton (line : Bytes) : size [line] = line.length := List.sum_singleton

theorem size_append (lines more : List Bytes) : size (lines ++ more) = size lines + size more := by
  rw [size, size, size, List.map_append, List.sum_append]

theorem Extends.lines {buf' : OutputBuffer} (h : Extends buf data buf')
    (hbuf : Lines buf.lines buf.lastLineIncomplete) : Lines buf'.lines buf'.lastLineIncomplete := by
  cases h with
  | follows hflag hrest hlines =>
    rw [hflag] at hbuf
    exact .append hbuf.whole hlines
  | ends hflag hlast hdone hdata hfirst hwhole hrest hlines =>
    exact .append hdone (.cons hwhole hlines)
  | @continues done line hflag hlast hdone hopen =>
    rw [hflag, hlast] at hbuf
    have hline : line ≠ [] := hbuf.ne_nil line (List.mem_append_right _ (List.mem_singleton_self _))
    exact .append hdone (.unfinished (by simp [hline]) hopen)

theorem Extends.size {buf' : OutputBuffer} (h : Extends buf data buf')
    (hbuf : buf.totalSize = Terminal.size buf.lines) :
    buf'.totalSize = Terminal.size buf'.lines := by
  cases h with
  | follows hflag hrest hlines => rw [hbuf, size_append, size_eq _, size_eq _, hrest]
  | ends hflag hlast hdone hdata hfirst hwhole hrest hlines =>
    rw [hbuf, hlast, hdata, size_append, size_append, size_singleton, size_cons, size_eq _,
      size_eq _, hrest]
    simp only [List.length_append]
    omega
  | continues hflag hlast hdone hopen =>
    rw [hbuf, hlast, size_append, size_append, size_singleton, size_singleton, List.length_append]
    dsimp only
    omega

/-! ## Trimming -/

/-- The lines that are left of some lines. -/
def trimmed (b : Bool) (lines : List Bytes) : OutputBuffer := trim (size lines) b lines

/-- There are more bytes or lines than the buffer holds. -/
def Overfull (lines : List Bytes) : Prop :=
  maxOutputBufferSize < size lines ∨ maxBufferLines < lines.length

theorem trimmed_full {lines : List Bytes} (hfull : ¬Overfull lines) (b : Bool) :
    trimmed b lines = ⟨lines, size lines, b⟩ := by
  cases lines with
  | nil => rfl
  | cons line lines => exact if_neg hfull

/-- The only line, unfinished, is cut to its newest half. -/
theorem trimmed_cut (hfull : Overfull [line]) : trimmed true [line] =
      ⟨[line.drop (line.length - maxOutputBufferSize / 2)],
        (line.drop (line.length - maxOutputBufferSize / 2)).length, true⟩ := by
  rw [trimmed, trim]
  exact (if_pos hfull).trans (if_pos ⟨rfl, rfl⟩)

/-- The oldest line is dropped. -/
theorem trimmed_drop {lines : List Bytes} (hfull : Overfull (line :: lines))
    (hmore : ¬(lines = [] ∧ b = true)) :
    trimmed b (line :: lines) = trimmed (if lines = [] then false else b) lines := by
  have hsize :
    (if size (line :: lines) < line.length then (lines.map List.length).sum else size
      (line :: lines) - line.length) =
      size lines := by
    rw [size_cons, if_neg (by omega)]
    omega
  rw [trimmed, trim, hsize]
  exact (if_pos hfull).trans (if_neg hmore)

/-- One line is too long if it is too much. -/
theorem overfull_singleton (hfull : Overfull [line]) : maxOutputBufferSize < line.length := by
  rcases hfull with hsize | hcount
  · rwa [size_singleton] at hsize
  · have hmax : maxBufferLines = 10000 := rfl
    rw [List.length_singleton] at hcount
    omega

theorem not_overfull_nil : ¬Overfull [] := by
  rintro (hsize | hcount)
  · exact Nat.not_lt_zero _ hsize
  · exact Nat.not_lt_zero _ hcount

/-- **Step**: trimming keeps the shape of the lines, and leaves no more than the buffer holds. -/
theorem Lines.trimmed {lines : List Bytes} (h : Lines lines b) :
    Lines (trimmed b lines).lines (trimmed b lines).lastLineIncomplete ∧
      (Terminal.trimmed b lines).totalSize = size (Terminal.trimmed b lines).lines ∧
      ¬Overfull (Terminal.trimmed b lines).lines := by
  have hkept : ∀ {lines b}, Lines lines b → ¬Overfull lines →
    Lines (Terminal.trimmed b lines).lines (Terminal.trimmed b lines).lastLineIncomplete ∧
      (Terminal.trimmed b lines).totalSize = size (Terminal.trimmed b lines).lines ∧
        ¬Overfull (Terminal.trimmed b lines).lines := by
    intro lines b hlines hfull
    rw [trimmed_full hfull]
    exact ⟨hlines, rfl, hfull⟩
  induction h with
  | nil => exact hkept .nil not_overfull_nil
  | @unfinished line hne hopen =>
    by_cases hfull : Overfull [line]
    · have hmax : maxOutputBufferSize = 1048576 := rfl
      have hlong := overfull_singleton hfull
      have hcut : (line.drop (line.length - maxOutputBufferSize / 2)).length =
          maxOutputBufferSize / 2 := by
        rw [List.length_drop]
        omega
      rw [trimmed_cut hfull]
      generalize hnewest : line.drop (line.length - maxOutputBufferSize / 2) = newest at hcut ⊢
      refine ⟨.unfinished ?_ (fun hmem => hopen (List.mem_of_mem_drop (hnewest ▸ hmem))),
        (size_singleton newest).symm, ?_⟩
      · exact List.ne_nil_of_length_pos (by omega)
      · intro hfull'
        have := overfull_singleton hfull'
        omega
    · exact hkept (.unfinished hne hopen) hfull
  | @cons line lines b hwhole hlines ih =>
    by_cases hfull : Overfull (line :: lines)
    · have hmore : ¬(lines = [] ∧ b = true) := by
        rintro ⟨rfl, rfl⟩
        cases hlines
      have hflag : (if lines = [] then false else b) = b := by
        split
        · next hempty => exact (Bool.eq_false_of_not_eq_true fun hb => hmore ⟨hempty, hb⟩).symm
        · rfl
      rw [trimmed_drop hfull hmore, hflag]
      exact ih
    · exact hkept (.cons hwhole hlines) hfull

/-! ## The loop that trims -/

/-- One pass of the loop: its condition fails, or it goes on or breaks with a buffer; and whether it
logs that an invariant is broken. -/
inductive Pass where
  | ends
  | next (buf : OutputBuffer) (broken : Bool)
  | breaks (buf : OutputBuffer) (broken : Bool)

/-- The body of the loop. -/
def OutputBuffer.trimPass (buf : OutputBuffer) : Pass :=
  if maxOutputBufferSize < buf.totalSize ∨ maxBufferLines < buf.lines.length then
    match buf.lines with
    | [] => .breaks ⟨[], 0, false⟩ true
    | line :: lines =>
      if lines = [] ∧ buf.lastLineIncomplete then
        let line := line.drop (line.length - maxOutputBufferSize / 2)
        .breaks ⟨[line], line.length, buf.lastLineIncomplete⟩ false
      else
        -- a counter that is too low is counted again
        .next ⟨lines, if buf.totalSize < line.length then size lines else buf.totalSize -
          line.length,
          if lines = [] then false else buf.lastLineIncomplete⟩
            (decide (buf.totalSize < line.length))
  else .ends

/-- So many passes at most; with whether one of them logged that an invariant is broken. -/
def trimLoop : ℕ → OutputBuffer → Option (OutputBuffer × Bool)
  | 0, _ => none
  | n + 1, buf =>
    match buf.trimPass with
    | .ends => some (buf, false)
    | .breaks buf broken => some (buf, broken)
    | .next buf broken => (trimLoop n buf).map fun (buf, later) => (buf, broken || later)

/-- The loop ends after one pass for each line, and no invariant is broken in it. -/
theorem trimLoop_eq {lines : List Bytes} : ∀ {b : Bool} {n : ℕ}, lines.length < n →
    trimLoop n ⟨lines, size lines, b⟩ = some (trimmed b lines, false) := by
  induction lines with
  | nil =>
    intro b n hn
    obtain ⟨n, rfl⟩ := Nat.exists_eq_add_one.mpr hn
    have hpass : OutputBuffer.trimPass ⟨[], size [], b⟩ = .ends := if_neg not_overfull_nil
    rw [trimLoop, hpass]
    rfl
  | cons line lines ih =>
    intro b n hn
    obtain ⟨n, rfl⟩ := Nat.exists_eq_add_one.mpr (Nat.zero_lt_of_lt hn)
    rw [trimLoop]
    by_cases hfull : Overfull (line :: lines)
    · by_cases honly : lines = [] ∧ b = true
      · obtain ⟨rfl, rfl⟩ := honly
        have hpass : OutputBuffer.trimPass ⟨[line], size [line], true⟩ =
            .breaks (trimmed true [line]) false := by
          rw [trimmed_cut hfull]
          exact (if_pos hfull).trans (if_pos ⟨rfl, rfl⟩)
        rw [hpass]
      · have hcount : ¬size (line :: lines) < line.length := by
          rw [size_cons]
          omega
        have hsize : size (line :: lines) - line.length = size lines := by
          rw [size_cons]
          omega
        have hpass : OutputBuffer.trimPass ⟨line :: lines, size (line :: lines), b⟩ =
            .next ⟨lines, size lines, if lines = [] then false else b⟩ false := by
          refine (if_pos hfull).trans ((if_neg honly).trans ?_)
          dsimp only
          rw [if_neg hcount, hsize, decide_eq_false hcount]
        rw [hpass, trimmed_drop hfull honly]
        dsimp only
        rw [ih (by simpa using hn)]
        rfl
    · have hpass : OutputBuffer.trimPass ⟨line :: lines, size (line :: lines), b⟩ = .ends :=
        if_neg hfull
      rw [hpass, trimmed_full hfull]

/-! ## Every history -/

theorem alignOffset_ge (line : Bytes) : ∀ n offset, offset ≤ alignOffset line n offset
  | 0, offset => le_rfl
  | n + 1, offset => by
    rw [alignOffset]
    split
    · exact (Nat.le_add_right offset 1).trans (alignOffset_ge line n (offset + 1))
    · exact le_rfl

/-- No more is collected than there is room for. -/
theorem collectRecent_size (maxBytes : ℕ) {lines : List Bytes} :
    ∀ {count : ℕ}, count ≤ maxBytes → size (collectRecent maxBytes lines count) + count ≤
      maxBytes := by
  induction lines with
  | nil =>
    intro count hcount
    exact (Nat.zero_add count).trans_le hcount
  | cons line older ih =>
    intro count hcount
    rw [collectRecent]
    split
    · split
      · next honly =>
        have halign := alignOffset_ge line 3 (line.length - maxBytes)
        dsimp only
        split
        · rw [size_singleton, List.length_drop]
          omega
        · exact (Nat.zero_add count).trans_le hcount
      · exact (Nat.zero_add count).trans_le hcount
    · next hroom =>
      have := ih (show count + line.length ≤ maxBytes by omega)
      rw [size_cons]
      omega

theorem getRecent_length (buf : OutputBuffer) (maxBytes : ℕ) :
    (buf.getRecent maxBytes).length ≤ maxBytes := by
  rw [OutputBuffer.getRecent]
  split
  · exact Nat.zero_le _
  · have hsize : size (collectRecent maxBytes buf.lines.reverse 0) + 0 ≤ maxBytes :=
      collectRecent_size maxBytes (Nat.zero_le _)
    rw [List.length_flatten, List.map_reverse, List.sum_reverse]
    exact hsize

/-- The invariant of the buffer. -/
structure OutputBuffer.Shaped (buf : OutputBuffer) : Prop where
  lines : Lines buf.lines buf.lastLineIncomplete
  size : buf.totalSize = Terminal.size buf.lines
  fits : ¬Overfull buf.lines

theorem new_shaped : OutputBuffer.new.Shaped := ⟨.nil, rfl, not_overfull_nil⟩

theorem append_trimmed (h : buf.Shaped) (hdata : data ≠ []) :
    buf.append data = trimmed (buf.extend data).lastLineIncomplete (buf.extend data).lines := by
  rw [append_eq buf hdata, (extend_extends h.lines data).size h.size]
  rfl

/-- **Step**: an append keeps the invariant. -/
theorem OutputBuffer.Shaped.append (h : buf.Shaped) (data : Bytes) : (buf.append data).Shaped := by
  by_cases hdata : data = []
  · rw [OutputBuffer.append, if_pos hdata]
    exact h
  · rw [append_trimmed h hdata]
    obtain ⟨hlines, hsize, hfits⟩ := ((extend_extends h.lines data).lines h.lines).trimmed
    exact ⟨hlines, hsize, hfits⟩

/-- **Run**: so do all appends. -/
theorem OutputBuffer.Shaped.appendAll {chunks : List Bytes} :
    ∀ {buf : OutputBuffer}, buf.Shaped → (buf.appendAll chunks).Shaped := by
  induction chunks with
  | nil => exact id
  | cons chunk chunks ih => exact fun h => ih (h.append chunk)

/-- What is promised of a buffer that data was appended to. -/
structure OutputBuffer.Sound (buf : OutputBuffer) (appended : Bytes) : Prop where
  size : buf.totalSize = (buf.lines.map List.length).sum
  maxSize : buf.totalSize ≤ maxOutputBufferSize
  maxLines : buf.lines.length ≤ maxBufferLines
  nonempty : ∀ line ∈ buf.lines, line ≠ []
  newlineLast : ∀ line ∈ buf.lines, newline ∉ line.dropLast
  ended : ∀ line ∈ buf.lines.dropLast, line.getLast? = some newline
  incomplete : buf.lastLineIncomplete = true ↔ ∃ line, buf.lines.getLast? = some line ∧
    line.getLast? ≠ some newline
  suffix : buf.lines.flatten <:+ appended
  recent : ∀ n, buf.getRecent n <:+ buf.lines.flatten ∧ (buf.getRecent n).length ≤ n

/-- **The replay buffer keeps its representation**: after any appends, the size is that of the lines
and both are in bounds, only the last line may be unfinished, and the lines are the end of what was
appended; and the loop of a further append ends, after one pass for each line at most, without a
broken invariant. -/
theorem append_invariant (chunks : List Bytes) :
    (OutputBuffer.new.appendAll chunks).Sound chunks.flatten ∧
    ∀ data, data ≠ [] →
      trimLoop (((OutputBuffer.new.appendAll chunks).extend data).lines.length + 1)
        ((OutputBuffer.new.appendAll chunks).extend data) =
        some ((OutputBuffer.new.appendAll chunks).append data, false) := by
  have hshaped : (OutputBuffer.new.appendAll chunks).Shaped := new_shaped.appendAll
  obtain ⟨hsize, hcount⟩ := not_or.mp hshaped.fits
  refine ⟨⟨hshaped.size, hshaped.size ▸ Nat.le_of_not_lt hsize, Nat.le_of_not_lt hcount,
    hshaped.lines.ne_nil,
    hshaped.lines.newline_last, hshaped.lines.dropLast, hshaped.lines.flag_iff, ?_, fun n => ?_⟩,
      fun data hdata => ?_⟩
  · exact appendAll_suffix chunks OutputBuffer.new
  · exact ⟨getRecent_suffix _ n, getRecent_length _ n⟩
  · have hextend := (extend_extends hshaped.lines data).size hshaped.size
    rw [append_trimmed hshaped hdata, ← trimLoop_eq (Nat.lt_succ_self _), ← hextend]

/-! ## The newest chunk -/

theorem Overfull.append {lines : List Bytes} (h : Overfull lines) (done : List Bytes) :
    Overfull (done ++ lines) := by
  rcases h with hsize | hcount
  · left
    rw [size_append]
    omega
  · right
    rw [List.length_append]
    omega

/-- Lines at the end that fit are kept. -/
theorem trimmed_keeps {kept : List Bytes} (hfits : ¬Overfull kept) (hne : kept ≠ [])
    (done : List Bytes) : kept <:+ (trimmed b (done ++ kept)).lines := by
  induction done with
  | nil =>
    have hlines : (trimmed b kept).lines = kept := by rw [trimmed_full hfits]
    exact ⟨[], hlines.symm⟩
  | cons line done ih =>
    have hmore : done ++ kept ≠ [] := List.append_ne_nil_of_right_ne_nil _ hne
    by_cases hfull : Overfull (line :: (done ++ kept))
    · rw [List.cons_append, trimmed_drop hfull fun h => hmore h.1, if_neg hmore]
      exact ih
    · rw [List.cons_append, trimmed_full hfull]
      exact (List.suffix_append _ _).trans (List.suffix_cons _ _)

/-- A line that is too much with those after it is dropped. -/
theorem trimmed_drops {rest : List Bytes} (hfull : Overfull (line :: rest))
    (hmore : ¬(rest = [] ∧ b = true)) (done : List Bytes) :
    (trimmed b (done ++ line :: rest)).lines.flatten <:+ rest.flatten := by
  induction done with
  | nil =>
    rw [List.nil_append, trimmed_drop hfull hmore]
    exact trim_suffix _ _ _
  | cons old done ih =>
    have hne : done ++ line :: rest ≠ [] :=
      List.append_ne_nil_of_right_ne_nil _ (List.cons_ne_nil _ _)
    have hall : Overfull (old :: (done ++ line :: rest)) := hfull.append (old :: done)
    rw [List.cons_append, trimmed_drop hall fun h => hne h.1, if_neg hne]
    exact ih

/-- An unfinished line that is too much is cut. -/
theorem trimmed_cuts (hfull : Overfull [line]) (done : List Bytes) :
    (trimmed true (done ++ [line])).lines =
      [line.drop (line.length - maxOutputBufferSize / 2)] := by
  induction done with
  | nil => rw [List.nil_append, trimmed_cut hfull]
  | cons old done ih =>
    have hne : done ++ [line] ≠ [] := List.append_ne_nil_of_right_ne_nil _ (List.cons_ne_nil _ _)
    have hall : Overfull (old :: (done ++ [line])) := hfull.append (old :: done)
    rw [List.cons_append, trimmed_drop hall fun h => hne h.1, if_neg hne]
    exact ih

/-- A chunk that ends the unfinished line fits in the buffer with it. -/
def OutputBuffer.Room (buf : OutputBuffer) (chunk : Bytes) : Prop :=
  buf.lastLineIncomplete = true → newline ∈ chunk → ∀ line ∈ buf.lines.getLast?,
    line.length + chunk.length ≤ maxOutputBufferSize

/-- An append leaves the chunk at the end if and only if it fits with the line that it ends. -/
theorem OutputBuffer.Shaped.keeps_iff (h : buf.Shaped) {chunk : Bytes} (hne : chunk ≠ [])
    (hshort : chunk.length ≤ 4096) :
    chunk <:+ (buf.append chunk).lines.flatten ↔ buf.Room chunk := by
  have hsizes : maxOutputBufferSize = 1048576 := rfl
  have hcounts : maxBufferLines = 10000 := rfl
  have hextends := extend_extends h.lines chunk
  rw [append_trimmed h hne]
  generalize buf.extend chunk = buf' at hextends ⊢
  -- lines at the end that hold the chunk and fit
  have hkept : ∀ {done kept : List Bytes} {b : Bool}, kept ≠ [] → ¬Overfull kept →
    chunk <:+ kept.flatten →
      chunk <:+ (trimmed b (done ++ kept)).lines.flatten := by
    intro done kept b hkept hfits hchunk
    obtain ⟨before, hlines⟩ := trimmed_keeps hfits hkept (b := b) done
    rw [← hlines, List.flatten_append]
    exact hchunk.trans (List.suffix_append _ _)
  cases hextends with
  | @follows rest b hflag hrest hlines =>
    refine iff_of_true (hkept ?_ ?_ (hrest ▸ List.suffix_refl _)) fun hincomplete => ?_
    · rintro rfl
      exact hne hrest.symm
    · rintro (hsize | hcount)
      · rw [size_eq, hrest] at hsize
        omega
      · have := hlines.length_le
        rw [hrest] at this
        omega
    · rw [hflag] at hincomplete
      cases hincomplete
  | @continues done line hflag hlast hdone hopen =>
    refine iff_of_true ?_ fun _ hnewline => absurd (List.mem_append_right _ hnewline) hopen
    by_cases hfull : Overfull [line ++ chunk]
    · have hlong := overfull_singleton hfull
      rw [List.length_append] at hlong
      rw [trimmed_cuts hfull, List.flatten_singleton,
        List.drop_append_of_le_length (by rw [List.length_append]; omega)]
      exact List.suffix_append _ _
    · exact hkept (List.cons_ne_nil _ _) hfull
        (by rw [List.flatten_singleton]; exact List.suffix_append _ _)
  | @ends done rest line first second b hflag hlast hdone hdata hfirst hwhole hrest hlines =>
    have hline : buf.lines.getLast? = some line := by rw [hlast, List.getLast?_concat]
    have hnewline : newline ∈ chunk := by
      have hend := hwhole.getLast?
      rw [List.getLast?_append_of_ne_nil line hfirst] at hend
      exact hdata ▸ List.mem_append_left _ (List.mem_of_getLast? hend)
    have hroom : buf.Room chunk ↔ line.length + chunk.length ≤ maxOutputBufferSize :=
      ⟨fun hroom => hroom hflag hnewline line hline,
        fun hle _ _ l hl => Option.some.inj (hline.symm.trans hl) ▸ hle⟩
    have hsize : Terminal.size ((line ++ first) :: rest) = line.length + chunk.length := by
      rw [size_cons, size_eq, hrest, hdata, List.length_append, List.length_append, Nat.add_assoc]
    rw [hroom]
    constructor
    · intro hchunk
      by_contra hfull
      have hover : Overfull ((line ++ first) :: rest) := .inl (by omega)
      have hmore : ¬(rest = [] ∧ b = true) := by
        rintro ⟨rfl, rfl⟩
        cases hlines
      have hrest' := trimmed_drops hover hmore done
      have hlength := (hchunk.trans hrest').length_le
      rw [hrest, hdata, List.length_append] at hlength
      have := List.length_pos_iff.mpr hfirst
      omega
    · intro hle
      refine hkept (List.cons_ne_nil _ _) ?_ ?_
      · rintro (hlarge | hcount)
        · omega
        · have hfew := hlines.length_le
          rw [hrest] at hfew
          rw [hdata, List.length_append] at hshort
          rw [List.length_cons] at hcount
          omega
      · rw [List.flatten_cons, hrest, List.append_assoc, ← hdata]
        exact List.suffix_append _ _

/-- **When the newest output survives**: whatever was appended before, a chunk that a read can give
is at the end of the buffer after it was appended, if and only if the unfinished line that it ends,
if it ends one, fits in the buffer with it. -/
theorem newest_kept_iff (chunks : List Bytes) {chunk : Bytes} (hne : chunk ≠ [])
    (hshort : chunk.length ≤ 4096) :
    chunk <:+ ((OutputBuffer.new.appendAll chunks).append chunk).lines.flatten ↔
      (OutputBuffer.new.appendAll chunks).Room chunk :=
  new_shaped.appendAll.keeps_iff hne hshort

theorem newest_kept_iff_ended : [66, newline, 67] <:+ ((OutputBuffer.new.appendAll [[65]]).append
      [66, newline, 67]).lines.flatten ↔
      (OutputBuffer.new.appendAll [[65]]).Room [66, newline, 67] :=
  newest_kept_iff [[65]] (by decide) (by decide)

/-- Lines without a newline are one unfinished line. -/
theorem Lines.eq_unfinished {lines : List Bytes} (h : Lines lines b)
    (hopen : newline ∉ lines.flatten) (hne : lines.flatten ≠ []) :
    lines = [lines.flatten] ∧ b = true := by
  cases h with
  | nil => exact absurd rfl hne
  | unfinished hline _ => exact ⟨by rw [List.flatten_singleton], rfl⟩
  | cons hwhole hlines =>
    refine absurd ?_ hopen
    rw [List.flatten_cons]
    exact List.mem_append_left _ (List.mem_of_getLast? hwhole.getLast?)

/-- As long as it fits, output without a newline is one unfinished line. -/
theorem appendAll_unfinished {chunks : List Bytes} (hopen : newline ∉ chunks.flatten)
    (hne : chunks.flatten ≠ []) (hfits : chunks.flatten.length ≤ maxOutputBufferSize) :
    (OutputBuffer.new.appendAll chunks).lines = [chunks.flatten] ∧
      (OutputBuffer.new.appendAll chunks).lastLineIncomplete = true := by
  have hall : (OutputBuffer.new.appendAll chunks).lines.flatten = chunks.flatten := by
    clear hne
    induction chunks using List.reverseRecOn with
    | nil => rfl
    | append_singleton chunks chunk ih =>
      rw [List.flatten_concat] at hopen hfits ⊢
      rw [List.length_append] at hfits
      have hbefore := ih (fun hmem => hopen (List.mem_append_left _ hmem)) (by omega)
      rw [OutputBuffer.appendAll, List.foldl_concat]
      have hshaped : (OutputBuffer.new.appendAll chunks).Shaped := new_shaped.appendAll
      by_cases hempty : chunk = []
      · rw [OutputBuffer.append, if_pos hempty, hempty, List.append_nil]
        exact hbefore
      · have hextend := extend_flatten (OutputBuffer.new.appendAll chunks) chunk
        have hlines := (extend_extends hshaped.lines chunk).lines hshaped.lines
        rw [hbefore] at hextend
        obtain ⟨hone, -⟩ := hlines.eq_unfinished (by rwa [hextend]) (by rw [hextend]; simp [hempty])
        have hroom : ¬Overfull ((OutputBuffer.new.appendAll chunks).extend chunk).lines := by
          rintro (hsize | hcount)
          · rw [size_eq, hextend, List.length_append] at hsize
            omega
          · rw [hone, List.length_singleton] at hcount
            exact absurd hcount (by decide)
        exact (congrArg (fun buf => buf.lines.flatten)
          ((append_trimmed hshaped hempty).trans (trimmed_full hroom _))).trans hextend
  have hshaped : (OutputBuffer.new.appendAll chunks).Shaped := new_shaped.appendAll
  obtain ⟨hlines, hflag⟩ := hshaped.lines.eq_unfinished (hall.symm ▸ hopen) (hall.symm ▸ hne)
  exact ⟨hall ▸ hlines, hflag⟩

/-- A mebibyte of output without a newline, in reads of 4096 bytes. -/
def oneLine : List Bytes := List.replicate 256 (List.replicate 4096 97)

/-- The newline after it takes all of the output away. -/
theorem newest_lost : ¬∀ (chunks : List Bytes) (chunk : Bytes), chunk ≠ [] → chunk.length ≤ 4096 →
      chunk <:+ ((OutputBuffer.new.appendAll chunks).append chunk).lines.flatten := by
  intro h
  have hlength : oneLine.flatten.length = 1048576 := by
    rw [oneLine, List.length_flatten, List.map_replicate, List.sum_replicate_nat,
      List.length_replicate]
  have hopen : newline ∉ oneLine.flatten := by
    intro hmem
    obtain ⟨read, hread, hnewline⟩ := List.mem_flatten.mp hmem
    rw [List.eq_of_mem_replicate hread] at hnewline
    exact absurd (List.eq_of_mem_replicate hnewline) (by decide)
  obtain ⟨hlines, hflag⟩ := appendAll_unfinished hopen
    (List.ne_nil_of_length_pos (by omega)) (hlength.trans_le (by decide))
  have hshaped : (OutputBuffer.new.appendAll oneLine).Shaped := new_shaped.appendAll
  have hne : [newline] ≠ [] := nofun
  have hroom := (hshaped.keeps_iff hne (by decide)).mp (h oneLine [newline] hne (by decide))
  have hle := hroom hflag (List.mem_singleton_self _) oneLine.flatten (by rw [hlines]; rfl)
  rw [hlength] at hle
  exact absurd hle (by decide)

end Terminal
end BgDesk
