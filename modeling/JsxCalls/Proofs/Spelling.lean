import JsxCalls.Proofs.Opacity

/-!
# Texts with whole placeholders

A text is spelled with whole placeholders if the mark stands in it nowhere else. A character that is
part of no word lies within no placeholder, so it cuts such a text into two of the same kind, and
two of them can be joined at it. Restoring, too, treats its two sides apart, and writes every
expression where its placeholder stands.
-/

namespace JsxCalls

open Placeholder

/-! ## Spelled texts -/

/-- The numbers among the pieces. -/
def numbersIn (pieces : List (Piece Nat)) : List Nat :=
  pieces.filterMap fun
    | .char _ => none
    | .item number => some number

@[simp]
theorem numbersIn_nil : numbersIn [] = [] := rfl

@[simp]
theorem numbersIn_char (c : Char) (pieces : List (Piece Nat)) :
    numbersIn (.char c :: pieces) = numbersIn pieces := rfl

@[simp]
theorem numbersIn_item (number : Nat) (pieces : List (Piece Nat)) :
    numbersIn (.item number :: pieces) = number :: numbersIn pieces := rfl

@[simp]
theorem numbersIn_append (left right : List (Piece Nat)) :
    numbersIn (left ++ right) = numbersIn left ++ numbersIn right :=
  List.filterMap_append

@[simp]
theorem numbersIn_map_char (text : Text) : numbersIn (text.map .char) = [] := by
  induction text with
  | nil => rfl
  | cons c text induction => simp [induction]

/-- The text is spelled with whole placeholders of expressions below the given count. They have the
given numbers, in this order. -/
def Spells (count : Nat) (numbers : List Nat) (text : Text) : Prop :=
  (∀ number ∈ numbers, number < count) ∧
    ∃ pieces, spell pieces = text ∧ numbersIn pieces = numbers ∧ ¬ mark.map .char <:+: pieces

variable {count : Nat}

theorem notMem_mark_of_isWord {c : Char} (sign : isWord c = false) : c ∉ mark := by
  intro member
  have all : mark.all isWord = true := by decide
  have wordly := List.all_eq_true.mp all c member
  simp [sign] at wordly

theorem notMem_token_of_isWord {c : Char} (sign : isWord c = false) (index : Nat) :
    c ∉ token index := by
  intro member
  simp [isWord_of_mem_token member] at sign

theorem exists_of_spell_eq_append_cons {c : Char} (sign : isWord c = false)
    {pieces : List (Piece Nat)} {left right : Text} (equal : spell pieces = left ++ c :: right) :
    ∃ front back, pieces = front ++ .char c :: back ∧ spell front = left ∧ spell back = right := by
  induction pieces generalizing left with
  | nil => simp at equal
  | cons piece pieces induction =>
    cases piece with
    | char d =>
      cases left with
      | nil =>
        obtain ⟨rfl, rfl⟩ := List.cons.inj equal
        exact ⟨[], pieces, rfl, rfl, rfl⟩
      | cons e left =>
        obtain ⟨rfl, tails⟩ := List.cons.inj equal
        obtain ⟨front, back, rfl, rfl, rfl⟩ := induction tails
        exact ⟨.char d :: front, back, rfl, rfl, rfl⟩
    | item number =>
      obtain ⟨between, rfl, tails⟩ :=
        Text.exists_append_of_separator (notMem_token_of_isWord sign number) equal.symm
      obtain ⟨front, back, rfl, rfl, rfl⟩ := induction tails
      exact ⟨.item number :: front, back, rfl, rfl, rfl⟩

/-- A character that is part of no word lies between whole placeholders. -/
theorem spells_append_cons_iff {c : Char} (sign : isWord c = false) {numbers : List Nat}
    {left right : Text} : Spells count numbers (left ++ c :: right) ↔
      ∃ first second, numbers = first ++ second ∧ Spells count first left ∧
        Spells count second right := by
  have outside : Piece.char c ∉ (mark.map .char : List (Piece Nat)) := by
    intro member
    obtain ⟨d, inside, equal⟩ := List.mem_map.mp member
    exact notMem_mark_of_isWord sign (Piece.char.inj equal ▸ inside)
  constructor
  · rintro ⟨known, pieces, equal, rfl, clean⟩
    obtain ⟨front, back, rfl, rfl, rfl⟩ := exists_of_spell_eq_append_cons sign equal
    rw [numbersIn_append, numbersIn_char, List.forall_mem_append] at known
    rw [Text.infix_append_cons_iff outside, not_or] at clean
    exact ⟨numbersIn front, numbersIn back, by simp, ⟨known.1, front, rfl, rfl, clean.1⟩,
      ⟨known.2, back, rfl, rfl, clean.2⟩⟩
  · rintro ⟨_, _, rfl, ⟨knownFront, front, rfl, rfl, cleanFront⟩,
      ⟨knownBack, back, rfl, rfl, cleanBack⟩⟩
    refine ⟨List.forall_mem_append.mpr ⟨knownFront, knownBack⟩, front ++ .char c :: back, by simp,
      by simp, ?_⟩
    rw [Text.infix_append_cons_iff outside]
    exact fun found => found.elim cleanFront cleanBack

theorem spells_nil_iff {numbers : List Nat} : Spells count numbers [] ↔ numbers = [] := by
  constructor
  · rintro ⟨-, pieces, empty, rfl, -⟩
    rw [eq_nil_of_spell_eq_nil empty]
    rfl
  · rintro rfl
    exact ⟨List.forall_mem_nil _, [], rfl, rfl, by simp [mark_eq]⟩

theorem spells_cons_iff {c : Char} (sign : isWord c = false) {numbers : List Nat} {text : Text} :
    Spells count numbers (c :: text) ↔ Spells count numbers text := by
  have cut : Spells count numbers ([] ++ c :: text) ↔ _ := spells_append_cons_iff sign
  rw [List.nil_append] at cut
  rw [cut]
  constructor
  · rintro ⟨first, second, rfl, empty, spells⟩
    rwa [spells_nil_iff.mp empty, List.nil_append]
  · exact fun spells => ⟨[], numbers, rfl, spells_nil_iff.mpr rfl, spells⟩

theorem spells_signs_append_iff {signs : Text} (outside : ∀ c ∈ signs, isWord c = false)
    {numbers : List Nat} {text : Text} :
    Spells count numbers (signs ++ text) ↔ Spells count numbers text := by
  induction signs with
  | nil => rfl
  | cons c signs induction =>
    rw [List.cons_append, spells_cons_iff (outside c List.mem_cons_self)]
    exact induction fun d member => outside d (List.mem_cons_of_mem c member)

theorem spells_append_signs_iff {signs : Text} (outside : ∀ c ∈ signs, isWord c = false)
    {numbers : List Nat} {text : Text} :
    Spells count numbers (text ++ signs) ↔ Spells count numbers text := by
  cases signs with
  | nil => rw [List.append_nil]
  | cons c signs =>
    have later : ∀ {others}, Spells count others signs ↔ others = [] := by
      intro others
      have nothing : Spells count others (signs ++ []) ↔ _ :=
        spells_signs_append_iff fun d member => outside d (List.mem_cons_of_mem c member)
      rwa [List.append_nil, spells_nil_iff] at nothing
    simp [spells_append_cons_iff (outside c List.mem_cons_self), later]

/-- The text is cut before a character that is part of no word, or at its end. -/
theorem Spells.exists_of_stopsRun {numbers : List Nat} {left right : Text}
    (spells : Spells count numbers (left ++ right)) (stops : Text.StopsRun isWord right) :
    ∃ first second, numbers = first ++ second ∧ Spells count first left ∧
      Spells count second right := by
  cases right with
  | nil =>
    rw [List.append_nil] at spells
    exact ⟨numbers, [], (List.append_nil _).symm, spells, spells_nil_iff.mpr rfl⟩
  | cons c right =>
    have sign : isWord c = false := stops c rfl
    obtain ⟨first, second, equal, before, behind⟩ := (spells_append_cons_iff sign).mp spells
    exact ⟨first, second, equal, before, (spells_cons_iff sign).mpr behind⟩

/-! ## Texts without placeholders -/

theorem spells_of_unmarked {text : Text} (unmarked : ¬ mark <:+: text) : Spells count [] text := by
  exact ⟨List.forall_mem_nil _, text.map .char, spell_map_char text, numbersIn_map_char text,
    fun found => unmarked (infix_of_infix_map_char found)⟩

theorem Spells.unmarked {text : Text} (spells : Spells count [] text) : ¬ mark <:+: text := by
  obtain ⟨-, pieces, rfl, none, clean⟩ := spells
  rintro ⟨before, behind, equal⟩
  rw [List.append_assoc] at equal
  rcases spell_mark_cases equal.symm with ⟨front, index, back, rfl, -⟩ | ⟨front, back, rfl, -⟩
  · simp at none
  · exact clean ⟨front, back, by simp⟩

theorem Spells.unique {numbers others : List Nat} {text : Text} (spells : Spells count numbers text)
    (again : Spells count others text) : numbers = others := by
  obtain ⟨-, pieces, rfl, rfl, clean⟩ := spells
  obtain ⟨-, pieces', equal, rfl, clean'⟩ := again
  rw [eq_of_spell_eq clean clean' equal.symm]

theorem Spells.eq_nil {numbers : List Nat} {text : Text} (spells : Spells count numbers text)
    (unmarked : ¬ mark <:+: text) : numbers = [] :=
  spells.unique (spells_of_unmarked unmarked)

/-! ## Placeholders at the start of a text -/

/-- What begins like a placeholder begins with one. -/
theorem Spells.exists_of_opening {numbers : List Nat} {text : Text}
    (spells : Spells count numbers text) (opens : opening <+: text) :
    ∃ number others rest, numbers = number :: others ∧ number < count ∧
      text = token number ++ rest ∧ Spells count others rest := by
  obtain ⟨known, pieces, rfl, rfl, clean⟩ := spells
  obtain ⟨behind, equal⟩ := opens
  have marked : spell pieces = ['_', '_'] ++ (mark ++ '_' :: behind) := by
    rw [← equal]
    rfl
  rcases spell_mark_cases marked with ⟨front, number, back, rfl, before, -⟩ | ⟨front, back, rfl, -⟩
  · have empty : spell front = [] := by
      have lengths := congrArg List.length before
      rw [List.length_append] at lengths
      exact List.length_eq_zero_iff.mp (by simpa using lengths)
    obtain rfl := eq_nil_of_spell_eq_nil empty
    obtain ⟨here, later⟩ := List.forall_mem_cons.mp known
    exact ⟨number, numbersIn back, spell back, rfl, here, rfl, later, back, rfl, rfl,
      fun found => clean (List.infix_cons found)⟩
  · exact absurd ⟨front, back, by simp⟩ clean

/-! ## Restoring -/

theorem restoreFrom_append_cons {c : Char} (sign : isWord c = false) (index : Nat)
    (entries : List Expression) (left right : Text) :
    ExpressionTable.restoreFrom index entries (left ++ c :: right) =
      ExpressionTable.restoreFrom index entries left ++
        c :: ExpressionTable.restoreFrom index entries right := by
  induction entries generalizing index left right with
  | nil => rfl
  | cons entry entries induction =>
    simp only [ExpressionTable.restoreFrom, induction, Text.replace_append_cons (token_ne_nil index)
      (notMem_token_of_isWord sign index)]

theorem restoreFrom_nil (index : Nat) (entries : List Expression) :
    ExpressionTable.restoreFrom index entries [] = [] := by
  induction entries generalizing index with
  | nil => rfl
  | cons entry entries induction => rw [ExpressionTable.restoreFrom, Text.replace_nil, induction]

namespace ExpressionTable

variable (table : ExpressionTable)

/-- The two sides of a character that is part of no word are restored apart. -/
theorem restore_append_cons {c : Char} (sign : isWord c = false) (left right : Text) :
    table.restore (left ++ c :: right) = table.restore left ++ c :: table.restore right :=
  restoreFrom_append_cons sign 0 table.entries left right

@[simp]
theorem restore_nil : table.restore [] = [] :=
  restoreFrom_nil 0 table.entries

theorem restore_cons {c : Char} (sign : isWord c = false) (text : Text) :
    table.restore (c :: text) = c :: table.restore text := by
  have apart := table.restore_append_cons sign [] text
  rwa [restore_nil] at apart

theorem restore_signs_append {signs : Text} (outside : ∀ c ∈ signs, isWord c = false)
    (text : Text) :
    table.restore (signs ++ text) = signs ++ table.restore text := by
  induction signs with
  | nil => rfl
  | cons c signs induction =>
    rw [List.cons_append, table.restore_cons (outside c List.mem_cons_self),
      induction fun d member => outside d (List.mem_cons_of_mem c member), List.cons_append]

/-- The expression with the given number as it stands in the source. -/
def sourceAt (index : Nat) : Text :=
  '{' :: (table.bodyAt index ++ ['}'])

end ExpressionTable

/-- The pieces with characters in place of one number. -/
def substitute (number : Nat) (text : Text) (pieces : List (Piece Nat)) : List (Piece Nat) :=
  pieces.flatMap fun
    | .char c => [.char c]
    | .item other => if other = number then text.map .char else [.item other]

section Substitute

variable {number : Nat} {text : Text}

@[simp]
theorem substitute_char (c : Char) (pieces : List (Piece Nat)) :
    substitute number text (.char c :: pieces) = .char c :: substitute number text pieces := rfl

theorem substitute_self (pieces : List (Piece Nat)) :
    substitute number text (.item number :: pieces) =
      text.map .char ++ substitute number text pieces := by
  simp [substitute]

theorem substitute_of_ne {other : Nat} (differ : other ≠ number) (pieces : List (Piece Nat)) :
    substitute number text (.item other :: pieces) =
      .item other :: substitute number text pieces := by
  simp [substitute, differ]

theorem numbersIn_substitute (pieces : List (Piece Nat)) :
    numbersIn (substitute number text pieces) = (numbersIn pieces).filter (· ≠ number) := by
  induction pieces with
  | nil => rfl
  | cons piece pieces induction =>
    cases piece with
    | char c => exact induction
    | item other =>
      by_cases same : other = number
      · subst same
        simp [substitute_self, induction]
      · simp [substitute_of_ne same, induction, same]

/-- In a spelled text, a placeholder is replaced exactly where it was put. -/
theorem replace_spell {pieces : List (Piece Nat)} (clean : ¬ mark.map .char <:+: pieces) :
    Text.replace (token number) text (spell pieces) = spell (substitute number text pieces) := by
  have unmarked : ∀ digit : Char, ¬ (mark ++ ['_', digit]).map .char <:+: pieces := by
    intro digit found
    rw [List.map_append] at found
    exact clean ((List.prefix_append _ _).isInfix.trans found)
  induction pieces with
  | nil => exact Text.replace_nil _ _
  | cons piece pieces induction =>
    have later := induction (fun found => clean (List.infix_cons found))
      fun digit found => unmarked digit (List.infix_cons found)
    cases piece with
    | char c =>
      have absent : ¬ token number <+: c :: spell pieces := by
        rintro ⟨behind, equal⟩
        have whole : spell (.char c :: pieces) = [] ++ (token number ++ behind) := equal.symm
        rcases spell_token_cases whole with ⟨front, back, split, empty, -⟩ | ⟨digit, -, found⟩
        · rw [eq_nil_of_spell_eq_nil empty.symm] at split
          simp at split
        · exact unmarked digit found
      rw [spell_char, Text.replace_cons_of_not_prefix absent, later, substitute_char, spell_char]
    | item other =>
      by_cases same : other = number
      · subst same
        rw [spell_item, Text.replace_append_self (token_ne_nil other), later, substitute_self,
          spell_append, spell_map_char]
      · rw [substitute_of_ne same, spell_item, spell_item, ← later]
        apply Text.replace_append_of_no_start (token_ne_nil number)
        rintro kept rest split filled ⟨behind, equal⟩
        have whole : spell (.item other :: pieces) = kept ++ (token number ++ behind) := by
          rw [spell_item, split, List.append_assoc, equal]
        rcases spell_token_cases whole with ⟨front, back, pieces_eq, kept_eq, -⟩ | ⟨digit, -, found⟩
        · cases front with
          | nil => exact same (Piece.item.inj (List.cons.inj pieces_eq).1)
          | cons first front =>
            obtain ⟨rfl, -⟩ := List.cons.inj pieces_eq
            have lengths := congrArg List.length split
            rw [kept_eq, spell_item] at lengths
            simp only [List.length_append] at lengths
            exact filled (List.length_eq_zero_iff.mp (by omega))
        · exact unmarked digit found

theorem prefix_of_prefix_substitute {word : Text} (brace : '{' ∉ word) {body : Text}
    {pieces : List (Piece Nat)}
    (found : word.map .char <+: substitute number ('{' :: (body ++ ['}'])) pieces) :
    word.map .char <+: pieces := by
  induction word generalizing pieces with
  | nil => exact List.nil_prefix
  | cons c word induction =>
    rw [List.mem_cons, not_or] at brace
    match pieces, found with
    | [], found => simp [substitute] at found
    | .char d :: pieces, found =>
      obtain ⟨same, later⟩ := List.cons_prefix_cons.mp found
      exact List.cons_prefix_cons.mpr ⟨same, induction brace.2 later⟩
    | .item other :: pieces, found =>
      by_cases same : other = number
      · subst same
        rw [substitute_self] at found
        exact absurd (Piece.char.inj (List.cons_prefix_cons.mp found).1).symm brace.1
      · rw [substitute_of_ne same] at found
        simp [List.cons_prefix_cons] at found

/-- An expression without the mark brings none into the text. -/
theorem not_mark_infix_substitute {body : Text} (unmarked : ¬ mark <:+: body)
    {pieces : List (Piece Nat)} (clean : ¬ mark.map .char <:+: pieces) :
    ¬ mark.map .char <:+: substitute number ('{' :: (body ++ ['}'])) pieces := by
  have opening : '{' ∉ mark := by decide
  have outside : ∀ c ∉ mark, Piece.char c ∉ (mark.map .char : List (Piece Nat)) := by
    simp only [List.mem_map, Piece.char.injEq, exists_eq_right]
    exact fun _ absent => absent
  have filled : (mark.map .char : List (Piece Nat)) ≠ [] := by simp [mark_eq]
  induction pieces with
  | nil => simpa [substitute] using filled
  | cons piece pieces induction =>
    have later := induction fun found => clean (List.infix_cons found)
    intro found
    cases piece with
    | char c =>
      rcases List.infix_cons_iff.mp found with here | inside
      · have starts : mark.map .char <+: .char c :: pieces :=
          prefix_of_prefix_substitute opening here
        exact clean starts.isInfix
      · exact later inside
    | item other =>
      by_cases same : other = number
      · subst same
        have text : substitute other ('{' :: (body ++ ['}'])) (.item other :: pieces) = .char '{' ::
            (body.map .char ++ .char '}' :: substitute other ('{' :: (body ++ ['}'])) pieces) := by
          simp [substitute_self]
        rw [text, Text.infix_cons_iff_of_notMem (outside '{' opening) filled,
          Text.infix_append_cons_iff (outside '}' (by decide))] at found
        rcases found with inBody | inRest
        · exact unmarked (infix_of_infix_map_char inBody)
        · exact later inRest
      · rw [substitute_of_ne same] at found
        rcases List.infix_cons_iff.mp found with here | inside
        · simp [mark_eq, List.cons_prefix_cons] at here
        · exact later inside

theorem flatMap_substitute (table : ExpressionTable) (index : Nat) (pieces : List (Piece Nat)) :
    (substitute index (table.sourceAt index) pieces).flatMap (Piece.replaced table.sourceAt) =
      pieces.flatMap (Piece.replaced table.sourceAt) := by
  have characters : ∀ text : Text,
      (text.map Piece.char).flatMap (Piece.replaced table.sourceAt) = text := by
    intro text
    induction text with
    | nil => rfl
    | cons c text induction => exact congrArg (c :: ·) induction
  induction pieces with
  | nil => rfl
  | cons piece pieces induction =>
    cases piece with
    | char c => exact congrArg (c :: ·) induction
    | item number =>
      by_cases same : number = index
      · subst same
        rw [substitute_self, List.flatMap_append, characters, induction]
        rfl
      · rw [substitute_of_ne same, List.flatMap_cons, List.flatMap_cons, induction]

end Substitute

section Restore

variable {table : ExpressionTable} (unmarked : table.Unmarked)
include unmarked

/-- Restoring writes every expression where its placeholder stands, and is done with it. -/
theorem restoreFrom_spell (remaining index : Nat) {pieces : List (Piece Nat)}
    (clean : ¬ mark.map .char <:+: pieces) (length : table.entries.length = index + remaining)
    (known : ∀ number ∈ numbersIn pieces, index ≤ number ∧ number < table.entries.length) :
    ExpressionTable.restoreFrom index (table.entries.drop index) (spell pieces) =
        pieces.flatMap (Piece.replaced table.sourceAt) ∧
      ¬ mark <:+: ExpressionTable.restoreFrom index (table.entries.drop index) (spell pieces) := by
  induction remaining generalizing index pieces with
  | zero =>
    have none : numbersIn pieces = [] := by
      rw [List.eq_nil_iff_forall_not_mem]
      intro number member
      have bounds := known number member
      omega
    have same : pieces.flatMap (Piece.replaced table.sourceAt) = spell pieces := by
      clear clean known
      induction pieces with
      | nil => rfl
      | cons piece pieces induction =>
        cases piece with
        | char c => exact congrArg (c :: ·) (induction none)
        | item number => simp at none
    have spells : Spells 0 [] (spell pieces) := ⟨List.forall_mem_nil _, pieces, rfl, none, clean⟩
    rw [List.drop_eq_nil_of_le (by omega), same]
    exact ⟨rfl, spells.unmarked⟩
  | succ remaining induction =>
    have bound : index < table.entries.length := by omega
    have entry : table.entries[index].source = table.sourceAt index := by
      simp [Expression.source, ExpressionTable.sourceAt, ExpressionTable.bodyAt,
        ExpressionTable.get?, bound]
    have later := induction (index + 1) (not_mark_infix_substitute (unmarked index) clean)
      (by omega) (by
        intro number member
        rw [numbersIn_substitute, List.mem_filter] at member
        have bounds := known number member.1
        have differ : number ≠ index := by simpa using member.2
        omega)
    rw [List.drop_eq_getElem_cons bound, ExpressionTable.restoreFrom, entry, replace_spell clean,
      ← flatMap_substitute table index]
    exact later

theorem restore_spell {pieces : List (Piece Nat)} (clean : ¬ mark.map .char <:+: pieces)
    (known : ∀ number ∈ numbersIn pieces, number < table.entries.length) :
    table.restore (spell pieces) = pieces.flatMap (Piece.replaced table.sourceAt) ∧
      ¬ mark <:+: table.restore (spell pieces) :=
  restoreFrom_spell unmarked table.entries.length 0 clean (Nat.zero_add _).symm
    fun number member => ⟨Nat.zero_le _, known number member⟩

/-- No placeholder is left in a restored text. -/
theorem Spells.not_mark_infix_restore {numbers : List Nat} {text : Text}
    (spells : Spells table.entries.length numbers text) : ¬ mark <:+: table.restore text := by
  obtain ⟨known, pieces, rfl, rfl, clean⟩ := spells
  exact (restore_spell unmarked clean known).2

end Restore

end JsxCalls
