import Mathlib.Data.List.Basic

/-! Slash-separated paths as text: cleaning a path resolves its empty, one-dot and
two-dot elements by their spelling alone, and joining puts slashes between the
parts and cleans the result. A cleaned path is a fixed point, so that joining
further plain elements to it only appends them. -/
namespace Moha.PathText

abbrev Text := List Char

/-- One more element on the stack of those before it, last first. Two dots take the
last one back; at the start of a path that is not rooted they stay. -/
def push (rooted : Bool) (stack : List Text) (element : Text) : List Text :=
  if element = [] ∨ element = ['.'] then stack
  else if element = ['.', '.'] then
    match stack with
    | [] => if rooted then [] else [element]
    | last :: rest => if last = ['.', '.'] then element :: stack else rest
  else element :: stack

def isRooted (text : Text) : Bool := text.head? == some '/'

def elements (text : Text) : List Text := (text.splitOn '/').foldl (push (isRooted text)) []

/-- The text of a stack; a path with no element left is a dot. -/
def render (rooted : Bool) (stack : List Text) : Text :=
  if rooted then '/' :: ['/'].intercalate stack.reverse
  else if stack = [] then ['.']
  else ['/'].intercalate stack.reverse

def clean (text : Text) : Text := render (isRooted text) (elements text)

/-- Empty parts in front are ignored, and nothing joins to nothing. -/
def join (parts : List Text) : Text :=
  match parts.dropWhile (· == []) with
  | [] => []
  | first :: rest => clean (['/'].intercalate (first :: rest))

/-- A slash at the end, unless there is one. -/
def closed (text : Text) : Text :=
  if text.getLast? == some '/' then text else text ++ ['/']

def trim (start text : Text) : Text :=
  if start.isPrefixOf text then text.drop start.length else text

/-- An element that cleaning keeps as it is. -/
structure Plain (element : Text) : Prop where
  nonempty : element ≠ []
  notDot : element ≠ ['.']
  notDots : element ≠ ['.', '.']
  noSlash : '/' ∉ element

instance (element : Text) : Decidable (Plain element) :=
  decidable_of_iff (element ≠ [] ∧ element ≠ ['.'] ∧ element ≠ ['.', '.'] ∧ '/' ∉ element)
    ⟨fun ⟨a, b, c, d⟩ => ⟨a, b, c, d⟩, fun ⟨a, b, c, d⟩ => ⟨a, b, c, d⟩⟩

theorem Plain.shape {element : Text} (plain : Plain element) : element ≠ [] ∧ '/' ∉ element :=
  ⟨plain.nonempty, plain.noSlash⟩

theorem push_plain {rooted : Bool} {stack : List Text} {element : Text} (plain : Plain element) :
    push rooted stack element = element :: stack := by
  simp [push, plain.nonempty, plain.notDot, plain.notDots]

/-- A stack that cleaning leaves: two dots only at the start of a path that is not
rooted. -/
def Normal (rooted : Bool) : List Text → Prop
  | [] => True
  | element :: rest =>
    Normal rooted rest ∧
      (Plain element ∨ (element = ['.', '.'] ∧ rooted = false ∧ ∀ other ∈ rest, other = ['.', '.']))

theorem normal_push {rooted : Bool} {stack : List Text} {element : Text}
    (normal : Normal rooted stack) (noSlash : '/' ∉ element) :
    Normal rooted (push rooted stack element) := by
  unfold push
  split
  · exact normal
  · rename_i spoken
    rw [not_or] at spoken
    split
    · rename_i dots
      subst dots
      cases stack with
      | nil => cases rooted <;> simp [Normal]
      | cons last rest =>
        dsimp only
        split
        · rename_i twice
          refine ⟨normal, .inr ⟨rfl, ?_⟩⟩
          rcases normal.2 with plain | ⟨_, unrooted, others⟩
          · exact absurd twice plain.notDots
          · exact ⟨unrooted, List.forall_mem_cons.mpr ⟨twice, others⟩⟩
        · exact normal.1
    · rename_i notDots
      exact ⟨normal, .inl ⟨spoken.1, spoken.2, notDots, noSlash⟩⟩

theorem not_mem_of_mem_splitOn {separator : Char} {text element : Text}
    (member : element ∈ text.splitOn separator) : separator ∉ element := by
  induction text generalizing element with
  | nil =>
    simp [List.splitOn] at member
    simp [member]
  | cons char rest ih =>
    rw [List.splitOn, List.splitOnP_cons_eq_if_modifyHead] at member
    split at member
    · rcases List.mem_cons.mp member with rfl | later
      · exact List.not_mem_nil
      · exact ih later
    · rename_i other
      cases split : rest.splitOnP (· == separator) with
      | nil => simp [split] at member
      | cons first others =>
        rw [split] at member
        rcases List.mem_cons.mp member with rfl | later
        · have clean := @ih first (by simp [List.splitOn, split])
          simp only [beq_iff_eq] at other
          exact List.not_mem_cons_of_ne_of_not_mem (Ne.symm other) clean
        · exact ih (by simp [List.splitOn, split, later])

theorem normal_foldl {rooted : Bool} {stack parts : List Text} (normal : Normal rooted stack)
    (noSlash : ∀ part ∈ parts, '/' ∉ part) : Normal rooted (parts.foldl (push rooted) stack) := by
  induction parts generalizing stack with
  | nil => exact normal
  | cons part rest ih =>
    exact ih (normal_push normal (noSlash part List.mem_cons_self)) fun other member =>
      noSlash other (List.mem_cons_of_mem part member)

theorem normal_elements (text : Text) : Normal (isRooted text) (elements text) :=
  normal_foldl trivial fun _ => not_mem_of_mem_splitOn

/-- The elements of a normal stack are pushed as they are. -/
theorem foldl_push_reverse {rooted : Bool} {stack : List Text} (normal : Normal rooted stack) :
    stack.reverse.foldl (push rooted) [] = stack := by
  induction stack with
  | nil => rfl
  | cons element rest ih =>
    rw [List.reverse_cons, List.foldl_append, ih normal.1]
    rcases normal.2 with plain | ⟨rfl, unrooted, others⟩
    · exact push_plain plain
    · cases rest with
      | nil => simp [push, unrooted]
      | cons last _ => simp [push, others last List.mem_cons_self]

theorem Normal.nonempty {rooted : Bool} {stack : List Text} (normal : Normal rooted stack) :
    ∀ element ∈ stack, element ≠ [] ∧ '/' ∉ element := by
  induction stack with
  | nil => simp
  | cons element rest ih =>
    refine List.forall_mem_cons.mpr ⟨?_, ih normal.1⟩
    rcases normal.2 with plain | ⟨rfl, _⟩
    · exact ⟨plain.nonempty, plain.noSlash⟩
    · decide

theorem intercalate_append {parts others : List Text} (nonempty : parts ≠ []) (more : others ≠ []) :
    ['/'].intercalate (parts ++ others) =
      ['/'].intercalate parts ++ '/' :: ['/'].intercalate others := by
  induction parts with
  | nil => exact absurd rfl nonempty
  | cons first rest ih =>
    cases rest with
    | nil =>
      obtain ⟨second, later, rfl⟩ := List.exists_cons_of_ne_nil more
      simp [List.intercalate_cons_cons]
    | cons second later =>
      have tail := ih (List.cons_ne_nil _ _)
      simp only [List.cons_append, List.intercalate_cons_cons] at tail ⊢
      simp [tail]

theorem intercalate_ne_nil {parts : List Text} (nonempty : parts ≠ [])
    (shape : ∀ part ∈ parts, part ≠ [] ∧ '/' ∉ part) : ['/'].intercalate parts ≠ [] := by
  intro empty
  have split := List.splitOn_intercalate '/' (fun part m => (shape part m).2) nonempty
  rw [empty] at split
  exact (shape [] (split ▸ by simp)).1 rfl

theorem head_intercalate {parts : List Text} (nonempty : parts ≠ [])
    (plain : ∀ part ∈ parts, part ≠ [] ∧ '/' ∉ part) :
    (['/'].intercalate parts).head? ≠ some '/' ∧ (['/'].intercalate parts).getLast? ≠ some '/' := by
  induction parts with
  | nil => exact absurd rfl nonempty
  | cons first rest ih =>
    obtain ⟨⟨filled, noSlash⟩, others⟩ := List.forall_mem_cons.mp plain
    have head : first.head? ≠ some '/' := fun found => noSlash (List.mem_of_mem_head? found)
    cases rest with
    | nil =>
      simp only [List.intercalate_singleton]
      exact ⟨head, fun found => noSlash (List.mem_of_mem_getLast? found)⟩
    | cons second later =>
      have tail := (ih (List.cons_ne_nil _ _) others).2
      have rest := intercalate_ne_nil (List.cons_ne_nil second later) others
      rw [List.intercalate_cons_cons]
      refine ⟨?_, ?_⟩
      · rw [List.append_assoc, List.head?_append_of_ne_nil _ filled]
        exact head
      · rw [List.getLast?_append_of_ne_nil _ rest]
        exact tail

/-- A rendered path is read back as it was. -/
theorem elements_render {rooted : Bool} {stack : List Text} (normal : Normal rooted stack) :
    isRooted (render rooted stack) = rooted ∧ elements (render rooted stack) = stack := by
  have shape := normal.nonempty
  cases rooted with
  | true =>
    refine ⟨rfl, ?_⟩
    have split : (render true stack).splitOn '/' =
        [] :: (['/'].intercalate stack.reverse).splitOn '/' := by
      simp [render, List.splitOn, List.splitOnP_cons_eq_if_modifyHead]
    rw [elements, split]
    by_cases bare : stack = []
    · simp [bare, push]
    · rw [List.splitOn_intercalate '/' (by simpa using fun e m => (shape e m).2)
        (by simpa using bare)]
      exact foldl_push_reverse normal
  | false =>
    by_cases bare : stack = []
    · subst bare
      exact ⟨rfl, rfl⟩
    · have text : render false stack = ['/'].intercalate stack.reverse := by simp [render, bare]
      have parts : ∀ part ∈ stack.reverse, part ≠ [] ∧ '/' ∉ part := by simpa using shape
      have start := (head_intercalate (by simpa using bare) parts).1
      have unrooted : isRooted (render false stack) = false := by simpa [isRooted, text] using start
      refine ⟨unrooted, ?_⟩
      rw [elements, unrooted, text, List.splitOn_intercalate '/' (fun e m => (parts e m).2)
        (by simpa using bare)]
      exact foldl_push_reverse normal

/-- The text that a path puts before the elements joined to it. -/
def under (path : Text) : Text := if path = [] ∨ path = ['.'] then [] else closed path

/-- The result of `join`, with which a path begins. -/
def Cleaned (path : Text) : Prop := path = [] ∨ ∃ text, path = clean text

theorem cleaned_join (parts : List Text) : Cleaned (join parts) := by
  unfold join
  split
  · exact .inl rfl
  · exact .inr ⟨_, rfl⟩

theorem foldl_push_plain {rooted : Bool} {stack parts : List Text}
    (plain : ∀ part ∈ parts, Plain part) :
    parts.foldl (push rooted) stack = parts.reverse ++ stack := by
  induction parts generalizing stack with
  | nil => rfl
  | cons part rest ih =>
    obtain ⟨head, tail⟩ := List.forall_mem_cons.mp plain
    rw [List.foldl_cons, push_plain head, ih tail, List.reverse_cons, List.append_assoc]
    rfl

theorem render_ne_nil {rooted : Bool} {stack : List Text} (normal : Normal rooted stack) :
    render rooted stack ≠ [] := by
  intro empty
  obtain ⟨same, elements⟩ := elements_render normal
  rw [empty] at same elements
  subst same
  have bare : stack = [] := elements.symm
  subst bare
  cases empty

/-- Only the root and the empty path end otherwise than with their last element. -/
theorem under_render {rooted : Bool} {stack : List Text} (normal : Normal rooted stack)
    (filled : stack ≠ []) : under (render rooted stack) = render rooted stack ++ ['/'] := by
  obtain ⟨_, same⟩ := elements_render normal
  have notDot : render rooted stack ≠ ['.'] := by
    intro dot
    rw [dot] at same
    exact filled same.symm
  have shape : ∀ part ∈ stack.reverse, part ≠ [] ∧ '/' ∉ part := by simpa using normal.nonempty
  have last := (head_intercalate (by simpa using filled) shape).2
  have ending : (render rooted stack).getLast? ≠ some '/' := by
    cases rooted with
    | true =>
      have body := intercalate_ne_nil (by simpa using filled) shape
      simpa [render, List.getLast?_cons_of_ne_nil body] using last
    | false => simpa [render, filled] using last
  simp [under, closed, render_ne_nil normal, notDot, ending]

/-- Cleaning a path with plain elements behind it keeps them. -/
theorem clean_append {path : Text} {parts : List Text} (start : path ≠ [])
    (plain : ∀ part ∈ parts, Plain part) (nonempty : parts ≠ []) :
    clean (path ++ '/' :: ['/'].intercalate parts) =
      render (isRooted path) (parts.reverse ++ elements path) := by
  obtain ⟨char, rest, rfl⟩ := List.exists_cons_of_ne_nil start
  have split : ((char :: rest) ++ '/' :: ['/'].intercalate parts).splitOn '/' =
      (char :: rest).splitOn '/' ++ parts := by
    rw [List.splitOn, List.splitOnP_append_cons _ _ (by simp)]
    exact congrArg _ (List.splitOn_intercalate '/' (fun part m => (plain part m).noSlash) nonempty)
  have same : isRooted ((char :: rest) ++ '/' :: ['/'].intercalate parts) =
      isRooted (char :: rest) := rfl
  rw [clean, same, elements, same, split, List.foldl_append, foldl_push_plain plain]
  rfl

/-- A path of plain elements is clean. -/
theorem clean_plain {parts : List Text} (plain : ∀ part ∈ parts, Plain part)
    (nonempty : parts ≠ []) : clean (['/'].intercalate parts) = ['/'].intercalate parts := by
  have shape : ∀ part ∈ parts, part ≠ [] ∧ '/' ∉ part := fun part m => (plain part m).shape
  have unrooted : isRooted (['/'].intercalate parts) = false := by
    simpa [isRooted] using (head_intercalate nonempty shape).1
  have split := List.splitOn_intercalate '/' (fun part m => (plain part m).noSlash) nonempty
  rw [clean, elements, unrooted, split, foldl_push_plain plain]
  simp [render, nonempty]

theorem join_plain {parts : List Text} (plain : ∀ part ∈ parts, Plain part)
    (nonempty : parts ≠ []) : join parts = ['/'].intercalate parts := by
  obtain ⟨first, rest, rfl⟩ := List.exists_cons_of_ne_nil nonempty
  have filled := (plain first List.mem_cons_self).nonempty
  rw [← clean_plain plain nonempty]
  simp [join, filled]

/-- Plain elements joined to a path stand behind it unchanged. -/
theorem join_under {path : Text} {parts : List Text} (cleaned : Cleaned path)
    (plain : ∀ part ∈ parts, Plain part) (nonempty : parts ≠ []) :
    join [path, ['/'].intercalate parts] = under path ++ ['/'].intercalate parts := by
  rcases cleaned with rfl | ⟨text, rfl⟩
  · have filled := intercalate_ne_nil nonempty fun part member => (plain part member).shape
    have joined : join [[], ['/'].intercalate parts] = clean (['/'].intercalate parts) := by
      simp [join, filled]
    rw [joined, clean_plain plain nonempty]
    rfl
  · have normal := normal_elements text
    have filled : clean text ≠ [] := render_ne_nil normal
    have joined : join [clean text, ['/'].intercalate parts] =
        clean (clean text ++ '/' :: ['/'].intercalate parts) := by
      simp [join, filled]
    obtain ⟨rooted, same⟩ := elements_render normal
    rw [joined, clean_append filled plain nonempty]
    rw [clean, rooted, same]
    by_cases bare : elements text = []
    · rw [bare]
      cases isRooted text <;> simp [render, under, closed, nonempty]
    · rw [under_render normal bare]
      have both : parts.reverse ++ elements text ≠ [] := by simp [bare]
      have body : ['/'].intercalate ((elements text).reverse ++ parts) =
          ['/'].intercalate (elements text).reverse ++ '/' :: ['/'].intercalate parts :=
        intercalate_append (by simpa using bare) nonempty
      cases isRooted text <;> simp [render, both, bare, body]

/-! ### Relative paths -/

/-- A path of plain elements, with no slash at its start or end. -/
def PlainPath (path : Text) : Prop := ∀ element ∈ path.splitOn '/', Plain element

instance (path : Text) : Decidable (PlainPath path) :=
  inferInstanceAs (Decidable (∀ element ∈ path.splitOn '/', Plain element))

theorem PlainPath.of_parts {parts : List Text} (plain : ∀ part ∈ parts, Plain part)
    (nonempty : parts ≠ []) : PlainPath (['/'].intercalate parts) := by
  rw [PlainPath, List.splitOn_intercalate '/' (fun part m => (plain part m).noSlash) nonempty]
  exact plain

/-- What begins with a plain path begins neither with a slash nor with a dot element. -/
theorem PlainPath.start {start path : Text} (plain : PlainPath start) (begun : start <+: path) :
    ¬ ['/'] <+: path ∧ ¬ ['.', '/'] <+: path := by
  -- the first element of `start` would be empty or a dot
  have first : ∀ element rest, start.splitOn '/' = element :: rest → Plain element :=
    fun element rest split => plain element (split ▸ List.mem_cons_self)
  constructor
  · rintro ⟨after, rfl⟩
    match start, begun, first with
    | [], _, first => exact (first [] [] rfl).nonempty rfl
    | char :: rest, begun, first =>
      obtain ⟨rfl, _⟩ := List.cons_prefix_cons.mp begun
      have split : ('/' :: rest).splitOn '/' = [] :: rest.splitOn '/' := by
        simp [List.splitOn, List.splitOnP_cons_eq_if_modifyHead]
      exact (first [] _ split).nonempty rfl
  · rintro ⟨after, rfl⟩
    match start, begun, first with
    | [], _, first => exact (first [] [] rfl).nonempty rfl
    | [char], begun, first =>
      obtain ⟨rfl, _⟩ := List.cons_prefix_cons.mp begun
      exact (first ['.'] [] rfl).notDot rfl
    | char :: second :: rest, begun, first =>
      obtain ⟨rfl, later⟩ := List.cons_prefix_cons.mp begun
      obtain ⟨rfl, _⟩ := List.cons_prefix_cons.mp later
      have split : ('.' :: '/' :: rest).splitOn '/' = ['.'] :: rest.splitOn '/' := by
        simp [List.splitOn, List.splitOnP_cons_eq_if_modifyHead]
      exact (first ['.'] _ split).notDot rfl

/-- A plain path joined to another stands behind it unchanged. -/
theorem PlainPath.join_under {path key : Text} (plain : PlainPath key) (cleaned : Cleaned path) :
    join [path, key] = under path ++ key := by
  have joined := PathText.join_under cleaned plain (List.splitOn_ne_nil '/' key)
  rwa [List.intercalate_splitOn] at joined

/-- What a path puts before the others is trimmed off again. -/
theorem trim_under {path key : Text} (notRooted : ¬ ['/'] <+: key) (notDot : ¬ ['.', '/'] <+: key) :
    trim (closed path) (under path ++ key) = key := by
  unfold under
  split
  · rename_i bare
    have apart : ¬ closed path <+: key := by
      rcases bare with rfl | rfl
      · exact notRooted
      · exact notDot
    rw [List.nil_append, trim, if_neg (by simpa only [List.isPrefixOf_iff_prefix] using apart)]
  · simp [trim]

theorem PlainPath.trim_join {path key : Text} (plain : PlainPath key) (cleaned : Cleaned path) :
    trim (closed path) (join [path, key]) = key := by
  obtain ⟨notRooted, notDot⟩ := plain.start List.prefix_rfl
  rw [plain.join_under cleaned, trim_under notRooted notDot]

end Moha.PathText
