import Mathlib.Data.List.Induction
import Relayix.Library.Text

/-! Event streams.

A frame is a line with the name of an event, a line with its data, and a blank line behind them. A
stream is read by cutting it at its blank lines and each block at its line ends, so frames whose
names and data have no line end are read back as they are, one block each. `D` is what a reader
makes of data. -/
namespace Relayix.Library.EventStream
open Text

/-- `text.split("\n\n")` -/
def blocks : List Char → List (List Char)
  | [] => [[]]
  | '\n' :: '\n' :: rest => [] :: blocks rest
  | c :: rest => (blocks rest).modifyHead (c :: ·)

def eventTag : List Char := "event: ".toList
def dataTag : List Char := "data: ".toList

/-- What was read of a block: the last name in it, and the last data. -/
structure Entry (D : Type) where
  event : Option String := none
  data : Option D := none
  deriving DecidableEq

section Reader
variable {D : Type} (loads : String → Option D)

def readLine (entry : Entry D) (line : List Char) : Option (Entry D) :=
  if eventTag.isPrefixOf line then some { entry with event := String.ofList (removePrefix eventTag line) }
  else if dataTag.isPrefixOf line then
    (loads (String.ofList (removePrefix dataTag line))).map fun data => { entry with data := some data }
  else some entry

def readBlock (block : List Char) : Option (Entry D) := (block.splitOn '\n').foldlM (readLine loads) {}

/-- The entries of a stream, `none` where some data cannot be read. -/
def parse (text : List Char) : Option (List (Entry D)) :=
  ((blocks (strip (· == '\n') text)).filter (· ≠ [])).mapM (readBlock loads)

end Reader

/-! ### Frames -/

/-- The two lines of a frame. -/
def block (event data : String) : List Char := eventTag ++ event.toList ++ '\n' :: (dataTag ++ data.toList)

def frame (event data : String) : List Char := block event data ++ ['\n', '\n']

/-- Without line ends. -/
def Unbroken (s : String) : Prop := '\n' ∉ s.toList

instance : DecidablePred Unbroken := fun s => inferInstanceAs (Decidable ('\n' ∉ s.toList))

/-- A line is its tag and one of these. -/
theorem not_mem_line {tag : List Char} {s : String} (htag : '\n' ∉ tag) (hs : Unbroken s) : '\n' ∉ tag ++ s.toList := by
  rw [List.mem_append, not_or]
  exact ⟨htag, hs⟩

section Blocks
variable {t rest : List Char} {event data : String}

/-- What has no line end extends the first block. -/
theorem blocks_append (h : '\n' ∉ t) (rest : List Char) : blocks (t ++ rest) = (blocks rest).modifyHead (t ++ ·) := by
  induction t with
  | nil =>
    show blocks rest = (blocks rest).modifyHead id
    rw [List.modifyHead_id]
    rfl
  | cons c t ih =>
    have hc : c ≠ '\n' := fun heq => h (heq ▸ List.mem_cons_self)
    have hstep : blocks (c :: (t ++ rest)) = (blocks (t ++ rest)).modifyHead (c :: ·) := by
      rw [blocks]
      rintro _ rfl
      exact absurd rfl hc
    rw [List.cons_append, hstep, ih fun hmem => h (List.mem_cons_of_mem c hmem)]
    cases blocks rest <;> rfl

/-- One line end is no blank line. -/
theorem blocks_line {c : Char} (hc : c ≠ '\n') (rest : List Char) :
    blocks ('\n' :: c :: rest) = (blocks (c :: rest)).modifyHead ('\n' :: ·) := by
  rw [blocks]
  intro rest' _ heq
  exact absurd (List.cons.inj heq).1 hc

theorem blocks_block (he : Unbroken event) (hd : Unbroken data) (rest : List Char) :
    blocks (block event data ++ rest) = (blocks rest).modifyHead (block event data ++ ·) := by
  have hfirst : '\n' ∉ eventTag ++ event.toList := not_mem_line (by decide) he
  have hsecond : '\n' ∉ dataTag ++ data.toList := not_mem_line (by decide) hd
  have hline : blocks ('\n' :: ((dataTag ++ data.toList) ++ rest)) =
      (blocks ((dataTag ++ data.toList) ++ rest)).modifyHead ('\n' :: ·) :=
    blocks_line (c := 'd') (by decide) _
  rw [block, List.append_assoc, List.cons_append, blocks_append hfirst, hline, blocks_append hsecond]
  cases blocks rest with
  | nil => rfl
  | cons b bs => simp

theorem blocks_last (he : Unbroken event) (hd : Unbroken data) : blocks (block event data) = [block event data] := by
  have hblocks := blocks_block he hd []
  rw [List.append_nil] at hblocks
  rw [hblocks, blocks, List.modifyHead_cons, List.append_nil]

theorem block_ne_nil (event data : String) : block event data ≠ [] :=
  List.append_ne_nil_of_right_ne_nil _ (List.cons_ne_nil _ _)

theorem blocks_frame (he : Unbroken event) (hd : Unbroken data) (rest : List Char) :
    blocks (frame event data ++ rest) = block event data :: blocks rest := by
  have hblank : blocks ('\n' :: '\n' :: rest) = [] :: blocks rest := rfl
  rw [frame, List.append_assoc, blocks_block he hd]
  show (blocks ('\n' :: '\n' :: rest)).modifyHead _ = _
  rw [hblank, List.modifyHead_cons, List.append_nil]

end Blocks

section Frames
variable {D : Type} {loads : String → Option D} {event data : String}

/-- A frame's two lines are read as what they are. -/
theorem readBlock_block (he : Unbroken event) (hd : Unbroken data) {value : D} (hload : loads data = some value) :
    readBlock loads (block event data) = some ⟨some event, some value⟩ := by
  have hfirst : '\n' ∉ eventTag ++ event.toList := not_mem_line (by decide) he
  have hsecond : '\n' ∉ dataTag ++ data.toList := not_mem_line (by decide) hd
  have hlines : (block event data).splitOn '\n' = [eventTag ++ event.toList, dataTag ++ data.toList] := by
    rw [block, List.splitOn_append_cons_self_of_not_mem hfirst, List.splitOn_eq_singleton hsecond]
  have hevent : readLine loads {} (eventTag ++ event.toList) = some ⟨some event, none⟩ := by
    rw [readLine, if_pos (List.isPrefixOf_iff_prefix.mpr (List.prefix_append _ _)), removePrefix_append, String.ofList_toList]
  have hdata : readLine loads ⟨some event, none⟩ (dataTag ++ data.toList) = some ⟨some event, some value⟩ := by
    have hother : ¬ eventTag.isPrefixOf (dataTag ++ data.toList) = true := Bool.false_ne_true
    rw [readLine, if_neg hother, if_pos (List.isPrefixOf_iff_prefix.mpr (List.prefix_append _ _)), removePrefix_append,
      String.ofList_toList, hload]
    rfl
  rw [readBlock, hlines, List.foldlM_cons, hevent, Option.bind_eq_bind, Option.bind_some, List.foldlM_cons, hdata]
  rfl

/-- Frames written one after the other. -/
def stream (frames : List (String × String)) : List Char := frames.flatMap fun f => frame f.1 f.2

theorem blocks_stream {frames : List (String × String)} (h : ∀ f ∈ frames, Unbroken f.1 ∧ Unbroken f.2) (rest : List Char) :
    blocks (stream frames ++ rest) = frames.map (fun f => block f.1 f.2) ++ blocks rest := by
  induction frames with
  | nil => rfl
  | cons f frames ih =>
    obtain ⟨hf, hrest⟩ := List.forall_mem_cons.mp h
    rw [stream, List.flatMap_cons, List.append_assoc, blocks_frame hf.1 hf.2, ← stream, ih hrest]
    rfl

theorem last_block (event : String) (hd : Unbroken data) : ∀ c ∈ (block event data).getLast?, (c == '\n') = false := by
  intro c hc
  have hcut : (block event data).getLast? = (dataTag ++ data.toList).getLast? := by
    have hne : dataTag ++ data.toList ≠ [] := List.append_ne_nil_of_left_ne_nil (List.cons_ne_nil _ _) _
    rw [block, ← List.singleton_append, ← List.append_assoc, List.getLast?_append_of_ne_nil _ hne]
  rw [hcut] at hc
  have hmem := List.mem_of_mem_getLast? hc
  have hc' : c ≠ '\n' := by
    rintro rfl
    rcases List.mem_append.mp hmem with htag | hdata
    · exact absurd htag (by decide)
    · exact hd hdata
  simpa using hc'

/-- Only the last blank line is trimmed of a stream. -/
theorem strip_stream {frames : List (String × String)} (hd : Unbroken data) :
    strip (· == '\n') (stream (frames ++ [(event, data)])) = stream frames ++ block event data := by
  have hcut : stream (frames ++ [(event, data)]) = [] ++ (stream frames ++ block event data) ++ ['\n', '\n'] := by
    simp [stream, frame]
  rw [hcut, strip_surrounded (fun c hc => absurd hc List.not_mem_nil) (List.all_eq_true.mp rfl)]
  refine strip_of_ends (fun c hc => ?_) (fun c hc => ?_)
  · have hfirst : (stream frames ++ block event data).head? = some 'e' := by
      cases frames <;> rfl
    rw [hfirst] at hc
    cases hc
    rfl
  · rw [List.getLast?_append_of_ne_nil _ (block_ne_nil event data)] at hc
    exact last_block event hd c hc

theorem blocks_strip {frames : List (String × String)} (h : ∀ f ∈ frames, Unbroken f.1 ∧ Unbroken f.2) :
    (blocks (strip (· == '\n') (stream frames))).filter (· ≠ []) = frames.map fun f => block f.1 f.2 := by
  cases frames using List.reverseRecOn with
  | nil => rfl
  | append_singleton frames last =>
    obtain ⟨hframes, hlast⟩ := List.forall_mem_append.mp h
    obtain ⟨he, hd⟩ := hlast last List.mem_cons_self
    have hcut : frames.map (fun f => block f.1 f.2) ++ [block last.1 last.2] =
        (frames ++ [last]).map fun f => block f.1 f.2 := by simp
    rw [strip_stream hd, blocks_stream hframes, blocks_last he hd, hcut]
    refine List.filter_eq_self.mpr fun b hb => ?_
    obtain ⟨f, _, rfl⟩ := List.mem_map.mp hb
    exact decide_eq_true (block_ne_nil f.1 f.2)

/-- **Frames are read back as they were written**, none added, merged or split. -/
theorem parse_stream {α : Type} {items : List α} {event data : α → String} {value : α → D}
    (h : ∀ a ∈ items, Unbroken (event a) ∧ Unbroken (data a)) (hloads : ∀ a ∈ items, loads (data a) = some (value a)) :
    parse loads (stream (items.map fun a => (event a, data a))) =
      some (items.map fun a => ⟨some (event a), some (value a)⟩) := by
  have hblocks := blocks_strip (List.forall_mem_map.mpr h : ∀ f ∈ items.map fun a => (event a, data a), Unbroken f.1 ∧ Unbroken f.2)
  rw [parse, hblocks, List.map_map]
  clear hblocks
  induction items with
  | nil => rfl
  | cons a items ih =>
    obtain ⟨ha, hrest⟩ := List.forall_mem_cons.mp h
    obtain ⟨hload, hloads⟩ := List.forall_mem_cons.mp hloads
    rw [List.map_cons, List.mapM_cons, ih hrest hloads]
    show (readBlock loads (block (event a) (data a)) >>= _) = _
    rw [readBlock_block ha.1 ha.2 hload]
    rfl

end Frames

end Relayix.Library.EventStream
