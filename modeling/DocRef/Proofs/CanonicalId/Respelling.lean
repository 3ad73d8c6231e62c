import DocRef.Proofs.CanonicalId.Texts
import DocRef.Proofs.Catalog.Names

/-!
Type parameters in signatures. Where a type begins, a tick without a second one behind it introduces a
type parameter; all other ticks belong to names and to the parameters of methods. So in the text of a
signature other texts can be put in the place of type parameters (`respell`), and what comes out is the
signature in which the parameters are written like that (`typeText_respells`, `memberText_respells`).
What a signature becomes is therefore told by its text alone.
-/

namespace DocRef

/-- What the next character of a signature can be part of. -/
inductive TextPlace
  /-- A type begins here. -/
  | start
  /-- No type begins here. -/
  | inside
  /-- The number of a type parameter, which has some digits already. -/
  | number (digits : Text)

/-- The characters behind which a type begins. -/
def typeOpeners : List Char :=
  ['(', ',', '\x7b', '~']

/-- What the character behind one that is itself part of no number can be part of. -/
def placeAfter (c : Char) : TextPlace :=
  if c ∈ typeOpeners then .start else .inside

/-- A text with other texts in the place of type parameters, by their positions. -/
def respell (meaning : Nat → Text) : TextPlace → Text → Text
  | .number digits, [] => meaning digits.number
  | .number digits, c :: text =>
    if isDigit c then respell meaning (.number (digits ++ [c])) text
    else meaning digits.number ++ c :: respell meaning (placeAfter c) text
  | .start, [] => []
  | .start, c :: text =>
    if c = tick ∧ text.head? ≠ some tick then respell meaning (.number []) text
    else c :: respell meaning (placeAfter c) text
  | .inside, [] => []
  | .inside, c :: text => c :: respell meaning (placeAfter c) text

section Characters

variable (meaning : Nat → Text)

theorem respell_inside_cons {c : Char} (h : c ∉ typeOpeners) (text : Text) :
    respell meaning .inside (c :: text) = c :: respell meaning .inside text := by
  rw [respell, placeAfter, if_neg h]

theorem respell_inside_opener {c : Char} (h : c ∈ typeOpeners) (text : Text) :
    respell meaning .inside (c :: text) = c :: respell meaning .start text := by
  rw [respell, placeAfter, if_pos h]

theorem respell_start_of_ne_tick {c : Char} (h : c ≠ tick) (text : Text) :
    respell meaning .start (c :: text) = respell meaning .inside (c :: text) := by
  rw [respell, respell, if_neg fun hc => h hc.1]

/-- The digits of a number are read to their end. -/
theorem respell_number {run rest : Text} (hrun : ∀ c ∈ run, isDigit c = true)
    (hrest : ∀ c ∈ rest.head?, isDigit c = false) (digits : Text) :
    respell meaning (.number digits) (run ++ rest) =
      meaning (digits ++ run).number ++ respell meaning .inside rest := by
  induction run generalizing digits with
  | nil =>
    rw [List.nil_append, List.append_nil]
    cases rest with
    | nil => rw [respell, respell, List.append_nil]
    | cons c rest =>
      have hc : ¬ isDigit c = true := by rw [hrest c rfl]; exact Bool.false_ne_true
      rw [respell, respell, if_neg hc]
  | cons c run ih =>
    have hc := hrun c List.mem_cons_self
    rw [List.cons_append, respell, if_pos hc, ih fun d hd => hrun d (List.mem_cons_of_mem _ hd),
      List.append_assoc, List.singleton_append]

end Characters

/-- Whether a text in which no type begins at once becomes another one, whatever follows. -/
def RespellsPart (meaning : Nat → Text) (text other : Text) : Prop :=
  ∀ rest, respell meaning .inside (text ++ rest) = other ++ respell meaning .inside rest

/-- Whether the text of a type becomes another one, whatever follows that is no digit. -/
def RespellsType (meaning : Nat → Text) (text other : Text) : Prop :=
  ∀ rest : Text, (∀ c ∈ rest.head?, isDigit c = false) →
    respell meaning .start (text ++ rest) = other ++ respell meaning .inside rest

section Parts

variable {meaning : Nat → Text} {text other : Text}

/-- What has no types in it stays as it is. -/
theorem RespellsPart.refl (h : ∀ c ∈ text, c ∉ typeOpeners) : RespellsPart meaning text text := by
  intro rest
  induction text with
  | nil => rfl
  | cons c text ih =>
    rw [List.cons_append, respell_inside_cons meaning (h c List.mem_cons_self),
      ih fun d hd => h d (List.mem_cons_of_mem _ hd), List.cons_append]

theorem RespellsPart.append {more others : Text} (h : RespellsPart meaning text other)
    (hmore : RespellsPart meaning more others) : RespellsPart meaning (text ++ more) (other ++ others) := by
  intro rest
  rw [List.append_assoc, h, hmore, List.append_assoc]

theorem RespellsPart.join {separator : Char} (hseparator : separator ∉ typeOpeners)
    {parts others : List Text} (h : List.Forall₂ (RespellsPart meaning) parts others) :
    RespellsPart meaning (Text.join separator parts) (Text.join separator others) := by
  have hlater : ∀ {parts others : List Text}, List.Forall₂ (RespellsPart meaning) parts others →
      RespellsPart meaning (parts.flatMap (separator :: ·)) (others.flatMap (separator :: ·)) := by
    intro parts others h
    induction h with
    | nil => exact fun _ => rfl
    | cons hpart _ ih =>
      intro rest
      rw [List.flatMap_cons, List.flatMap_cons, List.append_assoc, List.cons_append,
        respell_inside_cons meaning hseparator, hpart, ih]
      simp only [List.cons_append, List.append_assoc]
  cases h with
  | nil => exact fun _ => rfl
  | cons hpart hparts =>
    rw [Text.join_cons, Text.join_cons]
    exact hpart.append (hlater hparts)

/-- The text of a type that does not begin with a tick. -/
theorem RespellsPart.type (h : RespellsPart meaning text other) (hhead : ∃ c ∈ text.head?, c ≠ tick) :
    RespellsType meaning text other := by
  intro rest _
  obtain ⟨c, hc, hne⟩ := hhead
  obtain ⟨tail, rfl⟩ := List.head?_eq_some_iff.mp hc
  rw [List.cons_append, respell_start_of_ne_tick meaning hne, ← List.cons_append, h]

/-- A type's text with a suffix that is no number. -/
theorem RespellsType.append {c : Char} {suffix : Text} (h : RespellsType meaning text other)
    (hdigit : isDigit c = false) (hplain : ∀ d ∈ c :: suffix, d ∉ typeOpeners) :
    RespellsType meaning (text ++ c :: suffix) (other ++ c :: suffix) := by
  intro rest _
  have hhead : ∀ d ∈ (c :: suffix ++ rest).head?, isDigit d = false := by
    rintro _ ⟨⟩
    exact hdigit
  rw [List.append_assoc, h _ hhead, RespellsPart.refl hplain, List.append_assoc]

/-- A list of types between an opening and a closing character. -/
theorem RespellsPart.list {opener closer : Char} {texts others : List Text}
    (hopener : opener ∈ typeOpeners) (hcloser : closer ∉ typeOpeners) (htick : closer ≠ tick)
    (hdigit : isDigit closer = false) (h : List.Forall₂ (RespellsType meaning) texts others) :
    RespellsPart meaning (opener :: Text.join ',' texts ++ [closer])
      (opener :: Text.join ',' others ++ [closer]) := by
  intro rest
  have hnext : ∀ texts : List Text,
      ∀ c ∈ (texts.flatMap (',' :: ·) ++ closer :: rest).head?, isDigit c = false := by
    rintro (_ | ⟨text, texts⟩) c ⟨⟩
    · exact hdigit
    · decide
  have hlater : respell meaning .inside (closer :: rest) = closer :: respell meaning .inside rest :=
    respell_inside_cons meaning hcloser rest
  have htail : ∀ {texts others : List Text}, List.Forall₂ (RespellsType meaning) texts others →
      respell meaning .inside (texts.flatMap (',' :: ·) ++ closer :: rest) =
        others.flatMap (',' :: ·) ++ closer :: respell meaning .inside rest := by
    intro texts others h
    induction h with
    | nil => exact hlater
    | @cons text other texts others htext _ ih =>
      have hcomma : respell meaning .inside (',' :: (text ++ (texts.flatMap (',' :: ·) ++
          closer :: rest))) = ',' :: (other ++ respell meaning .inside
            (texts.flatMap (',' :: ·) ++ closer :: rest)) := by
        rw [respell_inside_opener meaning (by decide), htext _ (hnext texts)]
      simpa [ih] using hcomma
  rw [List.cons_append, List.cons_append, respell_inside_opener meaning hopener, List.append_assoc,
    List.singleton_append]
  cases h with
  | nil =>
    show opener :: respell meaning .start (closer :: rest) =
      opener :: closer :: respell meaning .inside rest
    rw [respell_start_of_ne_tick meaning htick, hlater]
  | @cons text other texts others htext htexts =>
    rw [Text.join_cons, Text.join_cons, List.append_assoc, htext _ (hnext texts), htail htexts]
    simp

end Parts

/-! ### Parameters -/

section Parameters

variable {meaning : Nat → Text}

theorem notMem_typeOpeners_of_isDigit {c : Char} (h : isDigit c = true) : c ∉ typeOpeners := by
  intro hmem
  simp only [typeOpeners, List.mem_cons, List.not_mem_nil, or_false] at hmem
  rcases hmem with rfl | rfl | rfl | rfl <;> cases h

/-- A type parameter becomes what is put in its place. -/
theorem respellsType_typeParam (position : Nat) :
    RespellsType meaning (tick :: Text.decimal position) (meaning position) := by
  intro rest hrest
  have hdigits : ∀ c ∈ Text.decimal position, isDigit c = true := fun _ => Text.isDigit_of_mem_decimal
  have hhead : (Text.decimal position ++ rest).head? ≠ some tick := by
    obtain ⟨digit, digits, hdecimal⟩ := List.exists_cons_of_ne_nil (Text.decimal_ne_nil position)
    rw [hdecimal] at hdigits ⊢
    rintro ⟨⟩
    exact absurd (hdigits tick List.mem_cons_self) (by decide)
  rw [List.cons_append, respell, if_pos ⟨rfl, hhead⟩, respell_number meaning hdigits hrest,
    List.nil_append, Text.number_decimal]

/-- A method's parameter stays as it is. -/
theorem respellsType_methodParam (position : Nat) :
    RespellsType meaning (tick :: tick :: Text.decimal position)
      (tick :: tick :: Text.decimal position) := by
  intro rest _
  have hplain : ∀ c ∈ tick :: Text.decimal position, c ∉ typeOpeners := by
    refine List.forall_mem_cons.mpr ⟨by decide, fun c hc => ?_⟩
    exact notMem_typeOpeners_of_isDigit (Text.isDigit_of_mem_decimal hc)
  rw [List.cons_append, respell, if_neg (by simp), placeAfter, if_neg (by decide),
    RespellsPart.refl hplain]
  rfl

end Parameters

/-! ### Types -/

namespace Catalog

section Names

variable {meaning : Nat → Text}

theorem notMem_typeOpeners_of_inDotted {c : Char} (h : Text.inDotted c = true) : c ∉ typeOpeners := by
  intro hmem
  simp only [typeOpeners, List.mem_cons, List.not_mem_nil, or_false] at hmem
  rcases hmem with rfl | rfl | rfl | rfl <;> revert h <;> decide +kernel

/-- Segments whose arguments become others become the segments with these. -/
theorem respellsPart_spread {segments texts others : List Text}
    (hplain : ∀ segment ∈ segments, ∀ c ∈ segment, c ∉ typeOpeners)
    (h : List.Forall₂ (RespellsType meaning) texts others) :
    List.Forall₂ (RespellsPart meaning) ((spread segments texts).map closedText)
      ((spread segments others).map closedText) := by
  induction segments generalizing texts others with
  | nil => exact .nil
  | cons segment segments ih =>
    obtain ⟨hsegment, hlater⟩ := List.forall_mem_cons.mp hplain
    rcases marker_cases segment with ⟨stem, count, hsplit⟩ | hsplit
    · rw [spread_of_type hsplit, spread_of_type hsplit]
      refine .cons ?_ (ih hlater (List.forall₂_drop count h))
      have hstem : ∀ c ∈ stem, c ∉ typeOpeners := by
        rcases splitArity_cases segment with hnone | ⟨_, _, marker, hcases, hname⟩
        · rw [hsplit] at hnone
          cases hnone
        · rw [hsplit] at hcases
          cases hcases
          rw [hname] at hsegment
          exact fun c hc => hsegment c (List.mem_append_left _ hc)
      have hlist : RespellsPart meaning ('\x7b' :: Text.join ',' (texts.take count) ++ ['\x7d'])
          ('\x7b' :: Text.join ',' (others.take count) ++ ['\x7d']) :=
        .list (by decide) (by decide) (by decide) (by decide) (List.forall₂_take count h)
      have hfixed : RespellsPart meaning stem stem := .refl hstem
      simpa [closedText] using hfixed.append hlist
    · rw [spread_of_not_type hsplit, spread_of_not_type hsplit]
      exact .cons (RespellsPart.refl hsegment) (ih hlater h)

/-- However arguments are spread over it, a dotted name begins as before. -/
theorem head?_spread {name : Text} (hname : name.isDotted = true) (texts : List Text) :
    ∃ c ∈ (Text.join '.' ((spread (name.split '.') texts).map closedText)).head?, c ≠ tick := by
  obtain ⟨first, rest, rfl, hfirst, -⟩ := Text.isDotted_iff.mp hname
  have htick : first ≠ tick := ne_tick_of_inIdentifier (inIdentifier_of_startsIdentifier hfirst)
  have hdot : first ≠ '.' := by
    rintro rfl
    exact absurd hfirst (by decide +kernel)
  obtain ⟨part, parts, hsplit⟩ := Text.split_cons_of_ne hdot rest
  refine ⟨first, ?_, htick⟩
  rw [hsplit]
  rcases marker_cases (first :: part) with ⟨stem, count, hmarker⟩ | hmarker
  · rw [spread_of_type hmarker, List.map_cons, Text.join_cons]
    rcases splitArity_cases (first :: part) with hnone | ⟨_, _, marker, hcases, hname⟩
    · rw [hmarker] at hnone
      cases hnone
    · rw [hmarker] at hcases
      cases hcases
      cases stem with
      | nil =>
        cases hname
        exact absurd rfl htick
      | cons c stem =>
        cases hname
        rfl
  · rw [spread_of_not_type hmarker, List.map_cons, Text.join_cons]
    rfl

end Names

section Types

variable {catalog : Catalog} {meaning : Nat → Text}
  {paramText otherText : GenericParam → Except Inconsistency Text}

/-- Whether something has two texts of which the first becomes the second. -/
def Respelled (meaning : Nat → Text) (first second : Except Inconsistency Text) : Prop :=
  ∃ text other, first = .ok text ∧ second = .ok other ∧ RespellsType meaning text other

theorem Respelled.append {first second : Except Inconsistency Text} {c : Char} {suffix : Text}
    (h : Respelled meaning first second) (hdigit : isDigit c = false)
    (hplain : ∀ d ∈ c :: suffix, d ∉ typeOpeners) :
    Respelled meaning (do return (← first) ++ c :: suffix) (do return (← second) ++ c :: suffix) := by
  obtain ⟨text, other, rfl, rfl, hrespells⟩ := h
  exact ⟨_, _, rfl, rfl, hrespells.append hdigit hplain⟩

theorem exists_respelled {first second : TypeExpr → Except Inconsistency Text} {types : List TypeExpr}
    (h : ∀ type ∈ types, Respelled meaning (first type) (second type)) : ∃ texts others : List Text,
      types.map first = texts.map .ok ∧ types.map second = others.map .ok ∧
        List.Forall₂ (RespellsType meaning) texts others := by
  induction types with
  | nil => exact ⟨[], [], rfl, rfl, .nil⟩
  | cons type types ih =>
    obtain ⟨htype, htypes⟩ := List.forall_mem_cons.mp h
    obtain ⟨text, other, htext, hother, hrespells⟩ := htype
    obtain ⟨texts, others, htexts, hothers, hall⟩ := ih htypes
    refine ⟨text :: texts, other :: others, ?_, ?_, .cons hrespells hall⟩
    · rw [List.map_cons, List.map_cons, htext, htexts]
    · rw [List.map_cons, List.map_cons, hother, hothers]

/-- Where the text of every parameter becomes another one, so does the text of a type. -/
theorem typeText_respells (hloaded : catalog.Loaded) (hbounded : catalog.ListsBounded)
    {owns : GenericParam → Prop}
    (hparams : ∀ param, owns param → Respelled meaning (paramText param) (otherText param))
    {type : TypeExpr} (h : type.WellScoped catalog.dottedArity? owns) :
    Respelled meaning (catalog.typeText paramText type) (catalog.typeText otherText type) := by
  induction h with
  | named harity =>
    obtain ⟨type, htype, hname, -⟩ := typeDef?_of_dottedArity? harity
    refine ⟨type.name, type.name, typeName_eq htype, typeName_eq htype, ?_⟩
    obtain ⟨first, rest, hfirst, hstarts, -⟩ := Text.isDotted_iff.mp hname
    refine RespellsPart.type (RespellsPart.refl fun c hc => ?_) ⟨first, ?_, ?_⟩
    · exact notMem_typeOpeners_of_inDotted (Text.inDotted_of_isDotted hname c hc)
    · rw [hfirst]
      rfl
    · exact ne_tick_of_inIdentifier (inIdentifier_of_startsIdentifier hstarts)
  | generic _ harity _ ih =>
    obtain ⟨type, htype, hname, hcount⟩ := typeDef?_of_dottedArity? harity
    obtain ⟨texts, others, htexts, hothers, hall⟩ := exists_respelled ih
    refine ⟨_, _, typeText_generic hloaded hbounded htype hcount htexts,
      typeText_generic hloaded hbounded htype hcount hothers, ?_⟩
    have hplain : ∀ segment ∈ type.name.split '.', ∀ c ∈ segment, c ∉ typeOpeners :=
      fun segment hsegment c hc => notMem_typeOpeners_of_inDotted
        (Text.inDotted_of_isDotted hname c (Text.mem_of_mem_split hsegment hc))
    have hdot : '.' ∉ typeOpeners := by decide
    have hparts := RespellsPart.join hdot (respellsPart_spread hplain hall)
    exact hparts.type (head?_spread hname texts)
  | array _ ih => exact ih.append (by decide) (by simp [typeOpeners])
  | byRef _ ih => exact ih.append (by decide) (by simp [typeOpeners])
  | pointer _ ih => exact ih.append (by decide) (by simp [typeOpeners])
  | param hparam => exact hparams _ hparam

/-- The return type that a conversion's text ends in becomes another one. -/
theorem returnsText_respells {member : MemberDef}
    (h : ∀ type ∈ member.returns,
      Respelled meaning (catalog.typeText paramText type) (catalog.typeText otherText type)) :
    ∃ text other, catalog.returnsText member paramText = .ok text ∧
      catalog.returnsText member otherText = .ok other ∧ respell meaning .inside text = other := by
  rw [returnsText, returnsText]
  cases hreturns : member.returns with
  | none => exact ⟨[], [], rfl, rfl, rfl⟩
  | some type =>
    obtain ⟨text, other, htext, hother, hrespells⟩ := h type hreturns
    have hwhole := hrespells [] (by simp)
    rw [List.append_nil] at hwhole
    by_cases hconversion : member.name ∈ conversionOperators
    · refine ⟨'~' :: text, '~' :: other, ?_, ?_, ?_⟩
      · simp only [if_pos hconversion, htext]
        rfl
      · simp only [if_pos hconversion, hother]
        rfl
      · rw [respell_inside_opener meaning (by decide), hwhole, respell, List.append_nil]
    · exact ⟨[], [], by simp only [if_neg hconversion], by simp only [if_neg hconversion], rfl⟩

/-- Where the text of every parameter becomes another one, so does the text of a member. -/
theorem memberText_respells (hloaded : catalog.Loaded) (hbounded : catalog.ListsBounded)
    {owns : GenericParam → Prop}
    (hparams : ∀ param, owns param → Respelled meaning (paramText param) (otherText param))
    (id : MemberId) {member : MemberDef} (hname : (member.name.exchange '.' '#').IsIdentifier)
    (htypes : ∀ type ∈ member.types, type.WellScoped catalog.dottedArity? owns) :
    ∃ text other, catalog.memberText id member paramText = .ok text ∧
      catalog.memberText id member otherText = .ok other ∧ respell meaning .inside text = other := by
  have hall := fun type htype => typeText_respells hloaded hbounded hparams (htypes type htype)
  obtain ⟨texts, others, htexts, hothers, hlist⟩ := exists_respelled fun type htype =>
    hall type (List.mem_append_left _ htype)
  obtain ⟨returns, otherReturns, hreturns, hotherReturns, hend⟩ := returnsText_respells
    fun type htype => hall type (List.mem_append_right _ (Option.mem_toList.mpr htype))
  have hstem : RespellsPart meaning (member.name.exchange '.' '#') (member.name.exchange '.' '#') := by
    have hdotted := Text.isDotted_of_isName (Text.IsSegment.isName (.inl hname))
    exact .refl fun c hc => notMem_typeOpeners_of_inDotted (Text.inDotted_of_isDotted hdotted c hc)
  have harity : RespellsPart meaning (if catalog.isGenericMethod id
      then tick :: tick :: Text.decimal member.genericParams.length else [])
      (if catalog.isGenericMethod id
        then tick :: tick :: Text.decimal member.genericParams.length else []) := by
    refine .refl ?_
    split
    · simp only [List.forall_mem_cons]
      exact ⟨by decide, by decide,
        fun c hc => notMem_typeOpeners_of_isDigit (Text.isDigit_of_mem_decimal hc)⟩
    · exact List.forall_mem_nil _
  have hparameters : RespellsPart meaning
      (if member.parameters = [] then [] else '(' :: Text.join ',' texts ++ [')'])
      (if member.parameters = [] then [] else '(' :: Text.join ',' others ++ [')']) := by
    split
    · exact .refl (List.forall_mem_nil _)
    · exact .list (by decide) (by decide) (by decide) (by decide) hlist
  have hwhole := (hstem.append harity).append hparameters returns
  rw [hend] at hwhole
  refine ⟨_, _, ?_, ?_, hwhole⟩
  · rw [memberText, typeTexts_eq_map, htexts, allTexts_map_ok, hreturns]
    rfl
  · rw [memberText, typeTexts_eq_map, hothers, allTexts_map_ok, hotherReturns]
    rfl

end Types

end Catalog

end DocRef
