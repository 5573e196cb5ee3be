import Mathlib.Data.List.TakeDrop
import Stencil.Markup.Content
import Stencil.Markup.Scope

/-!
# Markup that is written

Elements and texts can be written so that they are read as they were meant: names of simple
characters, attributes in quotes, no text next to another. Nothing is said here of who writes them.

* `Attribute.writeRow`: attributes in quotes, one after the other.
* `Attribute.items_writeRow`: **a row of attributes is read as it was written.**
* `Node.Written`: a grammar of texts that write nodes.
* `Node.Written.ofDocument_eq`: **a document of the grammar is read as the nodes that it writes.**
-/

namespace Stencil.Markup

/-- Whether the character has no meaning of its own in a tag. -/
def inSimpleName (c : Char) : Bool :=
  !isSpace c && c ∉ ['=', ':', '"', '\'', '<', '>', '/', '!', '?']

/-- Whether the text is a name of simple characters. -/
def isSimpleName (name : Text) : Bool := !name.isEmpty && name.all inSimpleName

variable {name row text body rest value blanks : Text} {opened : List Text}

theorem of_inSimpleName {c : Char} (h : inSimpleName c = true) :
    isSpace c = false ∧ c ≠ '=' ∧ c ≠ ':' ∧ c ≠ '"' ∧ c ≠ '\'' ∧ c ≠ '>' ∧ c ≠ '/' ∧ c ≠ '!' ∧
      c ≠ '?' := by
  simp only [inSimpleName, Bool.and_eq_true, Bool.not_eq_true', decide_eq_true_eq, List.mem_cons,
    not_or] at h
  grind

theorem ne_nil_of_isSimpleName (h : isSimpleName name = true) : name ≠ [] := by
  rintro rfl
  cases h

theorem simple_of_mem (h : isSimpleName name = true) : ∀ c ∈ name, inSimpleName c = true := by
  simp only [isSimpleName, Bool.and_eq_true, List.all_eq_true] at h
  exact h.2

/-! ## The end of a tag -/

/-- Quotes that are opened in the text are closed in it, and no bracket outside of them closes the
tag. -/
def Sealed (text : Text) : Prop :=
  ∀ rest, tagBody? none (text ++ rest) = (tagBody? none rest).map (text ++ ·)

theorem sealed_nil : Sealed [] := by
  intro rest
  simp

theorem Sealed.append {text other : Text} (h : Sealed text) (h' : Sealed other) :
    Sealed (text ++ other) := by
  intro rest
  rw [List.append_assoc, h, h', Option.map_map]
  simp [Function.comp_def]

theorem sealed_of_plain (h : ∀ c ∈ text, c ≠ '>' ∧ c ≠ '"' ∧ c ≠ '\'') : Sealed text := by
  induction text with
  | nil => exact sealed_nil
  | cons c text ih =>
    intro rest
    obtain ⟨⟨hclose, hdouble, hsingle⟩, htext⟩ := List.forall_mem_cons.1 h
    rw [List.cons_append, tagBody?, if_neg hclose, if_neg (by simp [hdouble, hsingle]),
      ih htext rest, Option.map_map]
    rfl

/-- A value in quotes may hold brackets and other quotes. -/
theorem sealed_quoted (h : '"' ∉ value) : Sealed ('"' :: (value ++ ['"'])) := by
  have hclosed : ∀ rest, tagBody? (some '"') (value ++ '"' :: rest) =
      (tagBody? none rest).map fun body => value ++ '"' :: body := by
    intro rest
    induction value with
    | nil => rfl
    | cons c value ih =>
      rw [List.mem_cons, not_or] at h
      rw [List.cons_append, tagBody?, if_neg (Ne.symm h.1), ih h.2, Option.map_map]
      rfl
  intro rest
  rw [List.cons_append, List.append_assoc, List.singleton_append, tagBody?, if_neg (by decide),
    if_pos (.inl rfl), hclosed, Option.map_map]
  simp [Function.comp_def]

theorem sealed_of_isSimpleName (h : isSimpleName name = true) : Sealed name := by
  refine sealed_of_plain fun c hc => ?_
  obtain ⟨-, -, -, hdouble, hsingle, hclose, -⟩ := of_inSimpleName (simple_of_mem h c hc)
  exact ⟨hclose, hdouble, hsingle⟩

/-! ## Attributes -/

namespace Attribute

variable {item : Attribute} {items : List Attribute} {names : List Text} {unique : Bool}

/-- The text stands for itself between double quotes. -/
structure Quotable (value : Text) : Prop where
  unquoted : '"' ∉ value
  literal : '&' ∉ value

/-- The name is simple, and the value can stand in quotes. -/
structure Simple (item : Attribute) : Prop where
  name : isSimpleName item.name = true
  value : Quotable item.value

/-- The attribute in quotes, after a blank. -/
def write (item : Attribute) : Text := ' ' :: (item.name ++ '=' :: '"' :: (item.value ++ ['"']))

/-- The attributes in quotes. -/
def writeRow (items : List Attribute) : Text := items.flatMap write

theorem sealed_writeRow (h : ∀ item ∈ items, item.Simple) : Sealed (writeRow items) := by
  induction items with
  | nil => exact sealed_nil
  | cons item items ih =>
    obtain ⟨hitem, hitems⟩ := List.forall_mem_cons.1 h
    have hblank : Sealed [' '] := sealed_of_plain (by decide)
    have hequals : Sealed ['='] := sealed_of_plain (by decide)
    have hwrite : Sealed (write item) :=
      hblank.append ((sealed_of_isSimpleName hitem.name).append
        (hequals.append (sealed_quoted hitem.value.unquoted)))
    rw [writeRow, List.flatMap_cons]
    exact hwrite.append (ih hitems)

/-- The items of a row start at its first character that is no blank. -/
theorem items_of_dropWhile {first : Char} (h : text.dropWhile isSpace = first :: rest) :
    Attribute.items unique names text =
      (step unique names first rest).found ::
        Attribute.items unique (step unique names first rest).names
          (step unique names first rest).rest := by
  rw [Attribute.items]
  split
  · next hnil =>
    rw [h] at hnil
    cases hnil
  · next hcons =>
    rw [h] at hcons
    cases hcons
    rfl

/-- **A row of attributes is read as it was written**, if no name comes twice. -/
theorem items_writeRow (h : ∀ item ∈ items, item.Simple) (hnodup : (items.map Attribute.name).Nodup)
    (hnew : ∀ item ∈ items, item.name ∉ names) (hblanks : ∀ c ∈ blanks, isSpace c = true) :
    Attribute.items unique names (writeRow items ++ blanks) = items.map some := by
  induction items generalizing names with
  | nil => exact items_of_blank unique names hblanks
  | cons item items ih =>
    obtain ⟨hitem, hitems⟩ := List.forall_mem_cons.1 h
    obtain ⟨hnewItem, hnewItems⟩ := List.forall_mem_cons.1 hnew
    rw [List.map_cons, List.nodup_cons] at hnodup
    obtain ⟨first, tail, hname⟩ := List.exists_cons_of_ne_nil (ne_nil_of_isSimpleName hitem.name)
    have hsimple := simple_of_mem hitem.name
    rw [hname, List.forall_mem_cons] at hsimple
    have hfirst := (of_inSimpleName hsimple.1).1
    have htail : ∀ c ∈ tail, inName c = true := by
      intro c hc
      obtain ⟨hspace, hequals, -⟩ := of_inSimpleName (hsimple.2 c hc)
      simp [inName, hspace, hequals]
    have htext : (writeRow (item :: items) ++ blanks).dropWhile isSpace =
        first :: (tail ++ '=' :: '"' :: (item.value ++ '"' :: (writeRow items ++ blanks))) := by
      rw [writeRow, List.flatMap_cons, write, hname]
      simp [hfirst, show isSpace ' ' = true from rfl, writeRow]
    rw [items_of_dropWhile htext,
      step_written unique (hname ▸ hnewItem) htail hitem.value.unquoted]
    have hlater : ∀ other ∈ items, other.name ∉ (first :: tail) :: names := by
      intro other hother hmem
      rcases List.mem_cons.1 hmem with heq | hmem
      · -- the name would come twice
        exact hnodup.1 (hname ▸ heq ▸ List.mem_map_of_mem hother)
      · exact hnewItems other hother hmem
    rw [List.map_cons, ← hname, ih hitems hnodup.2 (hname ▸ hlater)]

theorem upToFlaw_map_some (items : List Attribute) : upToFlaw (items.map some) = items := by
  induction items with
  | nil => rfl
  | cons item items ih => exact congrArg (item :: ·) ih

section Row

variable (h : ∀ item ∈ items, item.Simple) (hnodup : (items.map Attribute.name).Nodup)
  (hblanks : ∀ c ∈ blanks, isSpace c = true)

include h hnodup hblanks

theorem row_writeRow : Attribute.row (writeRow items ++ blanks) = (items, true) := by
  have hitems : Attribute.items true [] (writeRow items ++ blanks) = items.map some :=
    items_writeRow h hnodup (fun _ _ => List.not_mem_nil) hblanks
  simp [Attribute.row, hitems, upToFlaw_map_some]

theorem leading_writeRow : leading (writeRow items ++ blanks) = items := by
  have hitems : Attribute.items false [] (writeRow items ++ blanks) = items.map some :=
    items_writeRow h hnodup (fun _ _ => List.not_mem_nil) hblanks
  rw [leading, hitems, upToFlaw_map_some]

end Row

theorem Simple.colon_not_mem (h : item.Simple) : ':' ∉ item.name := by
  intro hcolon
  exact (of_inSimpleName (simple_of_mem h.name ':' hcolon)).2.2.1 rfl

/-- A simple name is a local name. -/
theorem Simple.localName_eq (h : item.Simple) : item.localName = item.name := by
  unfold localName
  split
  · next hcut =>
    obtain ⟨-, hname⟩ := Text.cutAt?_eq_some_iff.1 hcut
    exact absurd (hname ▸ by simp) h.colon_not_mem
  · rfl

end Attribute

/-- A row of simple attributes declares nothing. -/
theorem Scopes.declarations?_writeRow {items : List Attribute} (h : ∀ item ∈ items, item.Simple)
    (hnodup : (items.map Attribute.name).Nodup) (hblanks : ∀ c ∈ blanks, isSpace c = true) :
    declarations? (Attribute.writeRow items ++ blanks) = some [] := by
  refine declarations?_of_none fun item hitem => ?_
  rw [Attribute.leading_writeRow h hnodup hblanks] at hitem
  unfold declaredForm?
  split
  · next hform =>
    -- what declares a short form has a colon in its name
    have hname := Text.after?_eq_some_iff.1 hform
    exact absurd (hname ▸ by simp) (h item hitem).colon_not_mem
  · rfl

/-! ## Documents -/

/-- What can follow a name in a tag: it starts with a blank, leaves no quote open, and does not
close the element. -/
structure IsRow (row : Text) : Prop where
  apart : ∀ c ∈ row.head?, isSpace c = true
  closed : Sealed row
  unclosed : row.getLast? ≠ some '/'

theorem isRow_nil : IsRow [] := ⟨nofun, sealed_nil, nofun⟩

theorem isRow_writeRow {items : List Attribute} (h : ∀ item ∈ items, item.Simple) :
    IsRow (Attribute.writeRow items ++ [' ']) where
  apart := by
    intro c hc
    -- every attribute starts with a blank, and so does what comes after them
    cases items with
    | nil =>
      cases hc
      rfl
    | cons item items =>
      cases hc
      rfl
  closed := (Attribute.sealed_writeRow h).append (sealed_of_plain (by decide))
  unclosed := by simp

theorem isSpace_of_simple (h : isSimpleName name = true) : ∀ c ∈ name, isSpace c = false :=
  fun c hc => (of_inSimpleName (simple_of_mem h c hc)).1

theorem nameAndRow_append (hname : isSimpleName name = true) (hrow : IsRow row) :
    nameAndRow (name ++ row) = (name, row) := by
  have hplain : ∀ c ∈ name, (!isSpace c) = true := by
    intro c hc
    rw [isSpace_of_simple hname c hc]
    rfl
  have htake : (name ++ row).takeWhile (fun c => !isSpace c) = name := by
    rw [List.takeWhile_append_of_pos hplain]
    cases row with
    | nil => exact List.append_nil name
    | cons c row =>
      rw [List.takeWhile_cons_of_neg (by simp [hrow.apart c rfl]), List.append_nil]
  have hdrop : (name ++ row).dropWhile (fun c => !isSpace c) = row := by
    rw [List.dropWhile_append_of_pos hplain]
    cases row with
    | nil => rfl
    | cons c row => exact List.dropWhile_cons_of_neg (by simp [hrow.apart c rfl])
  rw [nameAndRow, List.span_eq_takeWhile_dropWhile, htake, hdrop]

/-- What is in the brackets of a tag that opens an element. -/
theorem openingOf_append (hname : isSimpleName name = true) (hrow : IsRow row) :
    openingOf (name ++ row) = .opening name row false ∧
      openingOf (name ++ row ++ ['/']) = .opening name row true := by
  have hopen : (name ++ row).getLast? ≠ some '/' := by
    cases row with
    | nil =>
      rw [List.append_nil]
      intro hslash
      have hmem := List.mem_of_getLast? hslash
      exact (of_inSimpleName (simple_of_mem hname '/' hmem)).2.2.2.2.2.2.1 rfl
    | cons c row =>
      have hlast := List.getLast?_eq_some_getLast (List.cons_ne_nil c row)
      rw [List.getLast?_append, hlast]
      exact hlast ▸ hrow.unclosed
  have hparts := nameAndRow_append hname hrow
  generalize name ++ row = body at hopen hparts
  constructor
  · simp [openingOf, hopen, hparts]
  · simp [openingOf, hparts]

/-- A name is no mark of another construct, so what starts with it is a tag. -/
theorem construct?_of_isSimpleName (hname : isSimpleName name = true) (rest : Text) :
    construct? (name ++ rest) =
      (tagBody? none (name ++ rest)).map fun body => (openingOf body, body.length + 1) := by
  obtain ⟨c, tail, rfl⟩ := List.exists_cons_of_ne_nil (ne_nil_of_isSimpleName hname)
  obtain ⟨-, -, -, -, -, -, hslash, hbang, hquestion⟩ :=
    of_inSimpleName (simple_of_mem hname c List.mem_cons_self)
  rw [List.cons_append]
  unfold construct?
  split <;> simp_all

/-- A tag opens an element. -/
theorem eventsFrom_opening (hname : isSimpleName name = true) (hrow : IsRow row) (rest : Text) :
    eventsFrom opened ('<' :: (name ++ row ++ '>' :: rest)) =
      .opening name row :: eventsFrom (name :: opened) rest := by
  have hbody : tagBody? none (name ++ row ++ '>' :: rest) = some (name ++ row) := by
    rw [((sealed_of_isSimpleName hname).append hrow.closed) ('>' :: rest)]
    simp [tagBody?]
  have htag : construct? (name ++ row ++ '>' :: rest) =
      some (.opening name row false, (name ++ row).length + 1) := by
    rw [List.append_assoc, construct?_of_isSimpleName hname, ← List.append_assoc, hbody,
      Option.map_some, (openingOf_append hname hrow).1]
  rw [eventsFrom, if_pos rfl, htag]
  simp only [← List.drop_drop, List.drop_left, List.drop_one, List.tail_cons]

/-- A tag opens an element and closes it. -/
theorem eventsFrom_empty (hname : isSimpleName name = true) (hrow : IsRow row) (rest : Text) :
    eventsFrom opened ('<' :: (name ++ row ++ '/' :: '>' :: rest)) =
      .opening name row :: .closing :: eventsFrom opened rest := by
  have hslash : name ++ row ++ '/' :: '>' :: rest = (name ++ row ++ ['/']) ++ '>' :: rest := by
    simp
  have hbody : tagBody? none ((name ++ row ++ ['/']) ++ '>' :: rest) =
      some (name ++ row ++ ['/']) := by
    rw [((sealed_of_isSimpleName hname).append hrow.closed).append (sealed_of_plain (by decide))
      ('>' :: rest)]
    simp [tagBody?]
  have htag : construct? ((name ++ row ++ ['/']) ++ '>' :: rest) =
      some (.opening name row true, (name ++ row ++ ['/']).length + 1) := by
    rw [List.append_assoc, List.append_assoc, construct?_of_isSimpleName hname, ← List.append_assoc,
      ← List.append_assoc, hbody, Option.map_some, (openingOf_append hname hrow).2]
  rw [hslash, eventsFrom, if_pos rfl, htag]
  simp only [← List.drop_drop, List.drop_left, List.drop_one, List.tail_cons]

/-- A tag closes the element that was opened last. -/
theorem eventsFrom_closing (hname : isSimpleName name = true) (rest : Text) :
    eventsFrom (name :: opened) ('<' :: '/' :: (name ++ '>' :: rest)) =
      .closing :: eventsFrom opened rest := by
  have hbody : tagBody? none (name ++ '>' :: rest) = some name := by
    rw [sealed_of_isSimpleName hname ('>' :: rest)]
    simp [tagBody?]
  have hclosing : closingName name = name := by
    obtain ⟨before, c, rfl⟩ := List.eq_nil_or_concat name |>.resolve_left
      (ne_nil_of_isSimpleName hname)
    have hc : isSpace c = false := isSpace_of_simple hname c (by simp)
    simp [closingName, hc]
  have htag : construct? ('/' :: (name ++ '>' :: rest)) =
      some (.closing name, name.length + 2) := by
    rw [construct?, hbody, Option.map_some, hclosing]
  rw [eventsFrom, if_pos rfl, htag]
  have hrest : ('/' :: (name ++ '>' :: rest)).drop (name.length + 2) = rest := by
    rw [List.drop_succ_cons, ← List.drop_drop, List.drop_left]
    rfl
  simp only [hrest, if_pos]

/-- A text ends at the next tag. -/
theorem eventsFrom_text (hne : text ≠ []) (hplain : '<' ∉ text)
    (hnext : ∀ c ∈ rest.head?, c = '<') :
    eventsFrom opened (text ++ rest) = .text text :: eventsFrom opened rest := by
  obtain ⟨c, tail, rfl⟩ := List.exists_cons_of_ne_nil hne
  rw [List.mem_cons, not_or] at hplain
  have htail : ∀ x ∈ tail, (x != '<') = true := by
    intro x hx
    rw [bne_iff_ne]
    rintro rfl
    exact hplain.2 hx
  have htake : (tail ++ rest).takeWhile (· != '<') = tail := by
    rw [List.takeWhile_append_of_pos htail]
    cases rest with
    | nil => exact List.append_nil tail
    | cons x rest => rw [List.takeWhile_cons_of_neg (by simp [hnext x rfl]), List.append_nil]
  rw [List.cons_append, eventsFrom, if_neg (Ne.symm hplain.1)]
  simp only [htake, List.length_cons, Nat.add_sub_cancel, List.drop_left]

namespace Node

/-- **A text that writes nodes**: texts without brackets, no two next to each other, and elements,
which can be closed in their own tag if they hold nothing. -/
inductive Written : Text → List Node → Prop
  | nil : Written [] []
  | text {text rest : Text} {nodes : List Node} (hne : text ≠ []) (hplain : '<' ∉ text)
      (hnext : ∀ c ∈ rest.head?, c = '<') (later : Written rest nodes) :
      Written (text ++ rest) (.text text :: nodes)
  | empty {name row rest : Text} {nodes : List Node} (hname : isSimpleName name = true)
      (hrow : IsRow row) (later : Written rest nodes) :
      Written ('<' :: (name ++ row ++ '/' :: '>' :: rest)) (.element name row [] :: nodes)
  | element {name row inner rest : Text} {content nodes : List Node}
      (hname : isSimpleName name = true) (hrow : IsRow row) (inside : Written inner content)
      (later : Written rest nodes) :
      Written ('<' :: (name ++ row ++ '>' :: (inner ++ '<' :: '/' :: (name ++ '>' :: rest))))
        (.element name row content :: nodes)

variable {nodes : List Node}

/-- What is written gives events of its own, whatever follows, and they become the nodes. -/
theorem Written.exists_events (h : Written text nodes) : ∃ events,
    (∀ opened after, (∀ c ∈ after.head?, c = '<') →
      eventsFrom opened (text ++ after) = events ++ eventsFrom opened after) ∧
    ∀ later outer, events.foldr put (later :: outer) = (nodes ++ later) :: outer := by
  induction h with
  | nil => exact ⟨[], fun _ _ _ => rfl, fun _ _ => rfl⟩
  | @text text rest nodes hne hplain hnext later ih =>
    obtain ⟨events, hevents, hnodes⟩ := ih
    refine ⟨.text text :: events, fun opened after hafter => ?_, fun later outer => ?_⟩
    · have hrest : ∀ c ∈ (rest ++ after).head?, c = '<' := by
        cases rest with
        | nil => exact hafter
        | cons c rest => exact hnext
      rw [List.append_assoc, eventsFrom_text hne hplain hrest, hevents opened after hafter]
      rfl
    · rw [List.foldr_cons, hnodes]
      rfl
  | @empty name row rest nodes hname hrow later ih =>
    obtain ⟨events, hevents, hnodes⟩ := ih
    refine ⟨.opening name row :: .closing :: events, fun opened after hafter => ?_,
      fun later outer => ?_⟩
    · have hsplit : '<' :: (name ++ row ++ '/' :: '>' :: rest) ++ after =
          '<' :: (name ++ row ++ '/' :: '>' :: (rest ++ after)) := by simp
      rw [hsplit, eventsFrom_empty hname hrow, hevents opened after hafter]
      rfl
    · rw [List.foldr_cons, List.foldr_cons, hnodes]
      rfl
  | @element name row inner rest content nodes hname hrow inside later ihInside ihLater =>
    obtain ⟨inside, hinside, hcontent⟩ := ihInside
    obtain ⟨events, hevents, hnodes⟩ := ihLater
    refine ⟨.opening name row :: (inside ++ .closing :: events), fun opened after hafter => ?_,
      fun later outer => ?_⟩
    · have hsplit : '<' :: (name ++ row ++ '>' :: (inner ++ '<' :: '/' :: (name ++ '>' :: rest))) ++
          after = '<' :: (name ++ row ++
            '>' :: (inner ++ '<' :: '/' :: (name ++ '>' :: (rest ++ after)))) := by simp
      rw [hsplit, eventsFrom_opening hname hrow, hinside _ _ (by simp), eventsFrom_closing hname,
        hevents opened after hafter]
      simp
    · -- the tag at the end starts the content, which then goes into the element
      rw [List.foldr_cons, List.foldr_append, List.foldr_cons, hnodes]
      have hlevels : put .closing ((nodes ++ later) :: outer) =
          [] :: (nodes ++ later) :: outer := rfl
      rw [hlevels, hcontent, List.append_nil]
      rfl

/-- **A document that writes nodes is read as those nodes.** -/
theorem Written.ofDocument_eq (h : Written text nodes) : ofDocument text = nodes := by
  obtain ⟨events, hevents, hnodes⟩ := h.exists_events
  have hall : Markup.events text = events := by
    have hread := hevents [] [] nofun
    rw [List.append_nil] at hread
    rw [Markup.events, hread]
    simp [eventsFrom]
  rw [ofDocument, ofEvents, hall, hnodes, List.append_nil]
  rfl

end Node

end Stencil.Markup
