import JsxCalls.Proofs.Markup

/-!
# The grammar of elements

A text is an element in one of two ways, and in at most one way at all: the attribute list reaches
to the first `>`, and the children to the last closing tag. Reading finds exactly these texts. What
is no element is kept by a converter, and nothing else is, since a call ends with a parenthesis.
-/

namespace JsxCalls

namespace Element

/-- The texts that an element is written as. -/
inductive Written : Element → Text → Prop where
  /-- The element closes itself: `<tag attributes/>`. -/
  | selfClosing {tag attributes gap : Text} (filled : tag ≠ [])
      (wordly : ∀ c ∈ tag, isWord c = true) (stops : Text.StopsRun isWord attributes)
      (inside : '>' ∉ attributes) (spaces : ∀ c ∈ gap, isSpace c = true) :
      Written ⟨tag, attributes, none⟩ ("<".toList ++ tag ++ attributes ++ "/>".toList ++ gap)
  /-- The element has children: `<tag attributes>children</tag>`. -/
  | enclosing {tag attributes children gap : Text} (filled : tag ≠ [])
      (wordly : ∀ c ∈ tag, isWord c = true) (stops : Text.StopsRun isWord attributes)
      (inside : '>' ∉ attributes) (spaces : ∀ c ∈ gap, isSpace c = true) :
      Written ⟨tag, attributes, some children⟩
        ("<".toList ++ tag ++ attributes ++ ">".toList ++ children ++ "</".toList ++ tag ++
          ">".toList ++ gap)

theorem written_iff {element : Element} {markup : Text} : Written element markup ↔
    element.Readable ∧ ∃ gap, markup = element.source ++ gap ∧ ∀ c ∈ gap, isSpace c = true := by
  constructor
  · intro written
    cases written with
    | @selfClosing tag attributes gap filled wordly stops inside spaces =>
      exact ⟨⟨filled, wordly, stops, inside⟩, gap, by simp [source, ending], spaces⟩
    | @enclosing tag attributes children gap filled wordly stops inside spaces =>
      exact ⟨⟨filled, wordly, stops, inside⟩, gap, by simp [source, ending, closingTag], spaces⟩
  · rintro ⟨readable, gap, rfl, spaces⟩
    obtain ⟨tag, attributes, children⟩ := element
    obtain ⟨filled, wordly, stops, inside⟩ := readable
    cases children with
    | none =>
      have text : source ⟨tag, attributes, none⟩ ++ gap =
          "<".toList ++ tag ++ attributes ++ "/>".toList ++ gap := by
        simp [source, ending]
      rw [text]
      exact .selfClosing filled wordly stops inside spaces
    | some children =>
      have text : source ⟨tag, attributes, some children⟩ ++ gap =
          "<".toList ++ tag ++ attributes ++ ">".toList ++ children ++ "</".toList ++ tag ++
            ">".toList ++ gap := by
        simp [source, ending, closingTag]
      rw [text]
      exact .enclosing filled wordly stops inside spaces

/-- Reading accepts exactly the grammar. -/
theorem parse?_eq_some_iff {markup : Text} {element : Element} :
    parse? markup = some element ↔ Written element markup := by
  rw [written_iff]
  constructor
  · exact exists_of_parse?
  · rintro ⟨readable, gap, rfl, spaces⟩
    exact parse?_source_append readable spaces

theorem Written.unique {element other : Element} {markup : Text} (written : Written element markup)
    (again : Written other markup) : element = other :=
  Option.some.inj ((parse?_eq_some_iff.mpr written).symm.trans (parse?_eq_some_iff.mpr again))

theorem parse?_eq_none_iff {markup : Text} :
    parse? markup = none ↔ ∀ element, ¬ Written element markup := by
  simp only [Option.eq_none_iff_forall_ne_some, ne_eq, parse?_eq_some_iff]

/-- An element ends with its closing bracket or with white space. -/
theorem Written.getLast?_ne {element : Element} {markup : Text} (written : Written element markup) :
    markup.getLast? ≠ some ')' := by
  obtain ⟨-, gap, rfl, spaces⟩ := written_iff.mp written
  obtain ⟨content, equal, -⟩ := element.exists_source_eq
  rw [List.getLast?_append]
  cases last : gap.getLast? with
  | none =>
    rw [equal, ← List.cons_append, List.getLast?_concat]
    decide
  | some c =>
    intro closes
    obtain rfl : c = ')' := Option.some.inj closes
    exact absurd (spaces _ (List.mem_of_getLast? last)) (by decide)

end Element

theorem ElementCall.getLast?_render (call : ElementCall) (indent unit : Text) :
    (call.render indent unit).getLast? = some ')' := by
  obtain ⟨receiver, tag, props, children⟩ := call
  cases children <;> exact List.getLast?_concat

/-- A converter keeps its markup, white space at the ends apart, if and only if the markup is no
element. -/
theorem Converter.convert_eq_trim_iff (converter : Converter) (markup indent : Text) :
    converter.convert markup indent = Text.trim markup ↔
      ∀ element, ¬ Element.Written element (Text.trim markup) := by
  rw [← Element.parse?_eq_none_iff]
  cases parsed : Element.parse? (Text.trim markup) with
  | none => simp [convert, parsed]
  | some element =>
    have written := Element.parse?_eq_some_iff.mp parsed
    have call : converter.convert markup indent =
        (converter.call element).render indent converter.style.indentUnit := by
      simp [convert, parsed]
    refine iff_of_false (fun kept => written.getLast?_ne ?_) (Option.some_ne_none element)
    rw [← kept, call, ElementCall.getLast?_render]

namespace Element

/-- Reading finds the one element that a text is, in either form, and nothing in any other text; and
exactly the other texts are kept by a converter. -/
theorem parse?_grammar (markup : Text) :
    (∀ element, parse? markup = some element ↔ Written element markup) ∧
      (∀ element other, Written element markup → Written other markup → element = other) ∧
      (parse? markup = none ↔ ∀ element, ¬ Written element markup) ∧
      ∀ (converter : Converter) (indent : Text),
        converter.convert markup indent = Text.trim markup ↔
        ∀ element, ¬ Written element (Text.trim markup) :=
  ⟨fun _ => parse?_eq_some_iff, fun _ _ => Written.unique, parse?_eq_none_iff,
    fun converter indent => converter.convert_eq_trim_iff markup indent⟩

/-- An element with a slash at the end of its attribute list, and with the closing tag of another
element of its name before its own one. -/
def slashedMarkup : Text :=
  "<b x=1/>y</b></b>\n".toList

theorem parse?_grammar_slashedMarkup :
    Written ⟨"b".toList, " x=1/".toList, some "y</b>".toList⟩ slashedMarkup ∧
      parse? slashedMarkup = some ⟨"b".toList, " x=1/".toList, some "y</b>".toList⟩ ∧
      (∀ element, Written element slashedMarkup →
        element = ⟨"b".toList, " x=1/".toList, some "y</b>".toList⟩) ∧
      Converter.convert ⟨{}, none⟩ slashedMarkup [] ≠ Text.trim slashedMarkup := by
  have written : ∀ gap : Text, gap.all isSpace = true → Written
      ⟨"b".toList, " x=1/".toList, some "y</b>".toList⟩ ("<b x=1/>y</b></b>".toList ++ gap) :=
    fun gap spaces => .enclosing (List.cons_ne_nil 'b' []) (List.all_eq_true.mp (by decide))
      (Text.stopsRun_cons (by decide) _) (by decide) (List.all_eq_true.mp spaces)
  obtain ⟨reads, unique, -, kept⟩ := parse?_grammar slashedMarkup
  have here := written ['\n'] (by decide)
  refine ⟨here, (reads _).mpr here, fun element other => unique _ _ other here, fun same => ?_⟩
  exact (kept ⟨{}, none⟩ []).mp same _ (written [] rfl)

end Element

end JsxCalls
