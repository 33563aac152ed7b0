import SheetScript.Program.Printer
import SheetScript.Proofs.Token.Spelling

/-!
# Expressions whose text can be read

The text of an expression as tokens. Strings are written as they are, and so are the operands of
powers and of suffixes, which is why not every text shows how its expression is built.

* `Expr.Printable` are the expressions whose text does: names are names, strings hold no quote,
  number literals have no sign, and no sign stands where it would take in what follows it.
* `Expr.kinds` are the kinds of the tokens of a text, and `Printable.spells` says that the text of a
  printable expression spells them.
-/

namespace SheetScript

open Token Token.Lexer Token.Lexeme

/-- The mark of an operator. -/
def Operator.mark : Operator → Mark
  | add => .plus
  | subtract => .minus
  | multiply => .star
  | divide => .slash
  | floorDivide => .floorSlash
  | modulo => .percent
  | power => .power
  | equal => .equal
  | notEqual => .notEqual
  | less => .less
  | greater => .greater
  | lessEqual => .lessEqual
  | greaterEqual => .greaterEqual

/-- The mark of a connective. -/
def Connective.mark : Connective → Mark
  | and => .andWord
  | or => .orWord

/-- The mark of a sign. -/
def Unary.mark : Unary → Mark
  | negate => .minus
  | not => .notWord

namespace Expr

/-- Whether the expression is an operand with a sign. -/
def isUnary : Expr → Bool
  | unary .. => true
  | _ => false

/-- The text of the expression shows how it is built. A number literal has no sign; `-0` counts as
a zero that has one, since its text is read as a sign before a zero. -/
inductive Printable : Expr → Prop
  | number {value : Float} (unsigned : Number.Unsigned value) : Printable (number value)
  | string {value : String} (verbatim : ∀ c ∈ value.toList, IsVerbatim c) :
      Printable (string value)
  | bool (value : Bool) : Printable (bool value)
  | null : Printable null
  | «variable» {name : String} (isName : IsName name) : Printable (.variable name)
  | binary {op : Operator} {left right : Expr} (l : Printable left) (r : Printable right)
      (base : op = .power → left.isUnary = false) : Printable (binary op left right)
  | logical {op : Connective} {left right : Expr} (l : Printable left) (r : Printable right) :
      Printable (logical op left right)
  | unary {op : Unary} {operand : Expr} (x : Printable operand) : Printable (unary op operand)
  | call {callee : Expr} {args : List Expr} (x : Printable callee)
      (receiver : callee.isUnary = false) (all : ∀ arg ∈ args, Printable arg) :
      Printable (call callee args)
  | property {object : Expr} {name : String} (x : Printable object)
      (receiver : object.isUnary = false) (isName : IsName name) : Printable (property object name)
  | index {object position : Expr} (x : Printable object) (receiver : object.isUnary = false)
      (i : Printable position) : Printable (index object position)
  | array {items : List Expr} (all : ∀ item ∈ items, Printable item) : Printable (array items)
  | map {entries : List (String × Expr)} (keys : ∀ entry ∈ entries, IsName entry.1)
      (values : ∀ entry ∈ entries, Printable entry.2) : Printable (map entries)

/-! ## Kinds of tokens -/

/-- Kinds of tokens with commas between them. -/
def listed (parts : List (List Kind)) : List Kind := [.mark .comma].intercalate parts

mutual

/-- The kinds of the tokens of a text. -/
def kinds : Expr → List Kind
  | number value => [.number value]
  | string value => [.string value]
  | bool value => [.mark (if value then .trueWord else .falseWord)]
  | null => [.mark .nullWord]
  | .variable name => [.name name]
  | binary op left right =>
    [.mark .leftParen] ++ (left.kinds ++ ([.mark op.mark] ++ right.kinds) ++ [.mark .rightParen])
  | logical op left right =>
    [.mark .leftParen] ++ (left.kinds ++ ([.mark op.mark] ++ right.kinds) ++ [.mark .rightParen])
  | unary op operand => [.mark op.mark] ++ operand.kinds
  | call callee args =>
    callee.kinds ++ ([.mark .leftParen] ++ (listed (kindsAll args) ++ [.mark .rightParen]))
  | property object name => object.kinds ++ ([.mark .dot] ++ [.name name])
  | index object position =>
    object.kinds ++ ([.mark .leftBracket] ++ (position.kinds ++ [.mark .rightBracket]))
  | array items => [.mark .leftBracket] ++ (listed (kindsAll items) ++ [.mark .rightBracket])
  | map entries => [.mark .leftBrace] ++ (listed (entryKinds entries) ++ [.mark .rightBrace])

/-- The kinds of several expressions. -/
def kindsAll : List Expr → List (List Kind)
  | [] => []
  | e :: rest => e.kinds :: kindsAll rest

/-- The kinds of the entries of a map. -/
def entryKinds : List (String × Expr) → List (List Kind)
  | [] => []
  | (key, value) :: rest => ([.name key] ++ ([.mark .colon] ++ value.kinds)) :: entryKinds rest

end

mutual

/-- The number literals of an expression. -/
def numbers : Expr → List Float
  | number value => [value]
  | string _ | bool _ | null | .variable _ => []
  | binary _ left right | logical _ left right => left.numbers ++ right.numbers
  | unary _ operand => operand.numbers
  | call callee args => callee.numbers ++ numbersAll args
  | property object _ => object.numbers
  | index object position => object.numbers ++ position.numbers
  | array items => numbersAll items
  | map entries => entryNumbers entries

/-- The number literals of several expressions. -/
def numbersAll : List Expr → List Float
  | [] => []
  | e :: rest => e.numbers ++ numbersAll rest

/-- The number literals of the entries of a map. -/
def entryNumbers : List (String × Expr) → List Float
  | [] => []
  | (_, value) :: rest => value.numbers ++ entryNumbers rest

end

/-- The kinds of the tokens of an entry. -/
def kindsOfEntry (entry : String × Expr) : List Kind :=
  [.name entry.1] ++ ([.mark .colon] ++ entry.2.kinds)

/-- The text of an entry. -/
def textOfEntry (entry : String × Expr) : String := entry.1 ++ ": " ++ entry.2.text

theorem texts_eq_map (es : List Expr) : texts es = es.map text := by
  induction es with
  | nil => rw [texts, List.map_nil]
  | cons e es ih => rw [texts, ih, List.map_cons]

theorem entryTexts_eq_map (entries : List (String × Expr)) :
    entryTexts entries = entries.map textOfEntry := by
  induction entries with
  | nil => rw [entryTexts, List.map_nil]
  | cons entry entries ih => rw [entryTexts, ih, List.map_cons, textOfEntry]

theorem kindsAll_eq_map (es : List Expr) : kindsAll es = es.map kinds := by
  induction es with
  | nil => rw [kindsAll, List.map_nil]
  | cons e es ih => rw [kindsAll, ih, List.map_cons]

theorem entryKinds_eq_map (entries : List (String × Expr)) :
    entryKinds entries = entries.map kindsOfEntry := by
  induction entries with
  | nil => rw [entryKinds, List.map_nil]
  | cons entry entries ih => rw [entryKinds, ih, List.map_cons, kindsOfEntry]

theorem numbersAll_eq_flatMap (es : List Expr) : numbersAll es = es.flatMap numbers := by
  induction es with
  | nil => rw [numbersAll, List.flatMap_nil]
  | cons e es ih => rw [numbersAll, ih, List.flatMap_cons]

theorem entryNumbers_eq_flatMap (entries : List (String × Expr)) :
    entryNumbers entries = entries.flatMap fun entry => entry.2.numbers := by
  induction entries with
  | nil => rw [entryNumbers, List.flatMap_nil]
  | cons entry entries ih => rw [entryNumbers, ih, List.flatMap_cons]

/-! ## Where a text starts and ends -/

/-- The characters that end the text of an expression by themselves. -/
def closers : List Char := [' ', ')', ']', '\x7d', ',', '(', '[']

/-- What may follow the text of an expression within a text. -/
inductive EndsText : List Char → Prop
  | last : EndsText []
  | closer {c : Char} {behind : List Char} (h : c ∈ closers) : EndsText (c :: behind)
  | property {c : Char} {behind : List Char} (h : startsName c) : EndsText ('.' :: c :: behind)

namespace EndsText

variable {rest : List Char}

theorem stops (h : EndsText rest) : Text.Stops inName rest := by
  have apart : ∀ c ∈ '.' :: closers, inName c = false :=
    List.all_iff_forall_prop.1 (by decide)
  intro c mem
  cases h with
  | last => cases mem
  | closer h =>
    obtain rfl := Option.some.inj mem
    exact apart _ (List.mem_cons_of_mem _ h)
  | property h =>
    obtain rfl := Option.some.inj mem
    exact apart _ (List.mem_cons_self ..)

theorem endsNumber (h : EndsText rest) : EndsNumber rest := by
  have apart : ∀ c ∈ closers, Text.isDecimalDigit c = false ∧ c ≠ '.' :=
    List.all_iff_forall_prop.1 (by decide)
  cases h with
  | last => exact ⟨fun c mem => (by cases mem), rfl⟩
  | @closer c behind h =>
    obtain ⟨no_digit, no_point⟩ := apart c h
    refine ⟨fun d mem => ?_, ?_⟩
    · obtain rfl := Option.some.inj mem
      exact no_digit
    · unfold fractionDigits
      split
      · next eq => exact absurd (List.cons.inj eq).1 no_point
      · rfl
  | property h =>
    refine ⟨fun d mem => ?_, ?_⟩
    · obtain rfl := Option.some.inj mem
      rfl
    · exact List.takeWhile_cons_of_neg (by rw [isDecimalDigit_of_startsName h]; decide)

end EndsText

/-- A text starts with a lexeme, and makes no assignment of what stands before it. -/
def StartsText (text : List Char) : Prop := ∃ c front, text = c :: front ∧ Begins c ∧ c ≠ '='

theorem StartsText.append {text : List Char} (h : StartsText text) (behind : List Char) :
    StartsText (text ++ behind) := by
  obtain ⟨c, front, rfl, begins, no_assign⟩ := h
  exact ⟨c, front ++ behind, rfl, begins, no_assign⟩

theorem startsText_of_spelt {text : List Char} (spelt : Spelt text) : StartsText text := by
  obtain ⟨c, front, rfl, starts⟩ := spelt.exists_cons
  refine ⟨c, front, rfl, begins_of_startsName starts, ?_⟩
  rintro rfl
  rw [startsName, Text.isLetter_of_ascii (by decide)] at starts
  cases starts

/-- The text of a printable expression starts with a lexeme. -/
theorem Printable.startsText {e : Expr} (h : Printable e) : StartsText e.text.toList := by
  have symbol : ∀ c ∈ ['"', '(', '[', '\x7b', '-'], ∀ front, StartsText (c :: front) := by
    intro c mem front
    have facts : ∀ c ∈ ['"', '(', '[', '\x7b', '-'], Text.isBlank c = false ∧ c ≠ '#' ∧ c ≠ '\\' ∧
        c ≠ '=' := List.all_iff_forall_prop.1 (by decide)
    obtain ⟨no_blank, no_comment, no_continuation, no_assign⟩ := facts c mem
    exact ⟨c, front, rfl, ⟨no_blank, no_comment, no_continuation⟩, no_assign⟩
  have word : ∀ name : String, Spelt name.toList → StartsText name.toList :=
    fun _ => startsText_of_spelt
  induction h with
  | number unsigned =>
    obtain ⟨whole, fraction, written⟩ := unsigned.written
    obtain ⟨c, digits, cons⟩ := List.exists_cons_of_ne_nil written.some
    have digit := written.whole c (by rw [cons]; exact List.mem_cons_self ..)
    refine ⟨c, digits ++ Number.point fraction, ?_, begins_of_isDecimalDigit digit, ?_⟩
    · rw [text, written.eq, cons, List.cons_append]
    · rintro rfl
      cases digit
  | bool value => cases value <;> exact word _ (by decide)
  | null => exact word "null" (by decide)
  | «variable» isName => exact word _ isName.1
  | @unary op operand x =>
    cases op with
    | negate =>
      rw [text, String.toList_append]
      exact symbol '-' (by decide) _
    | not =>
      rw [text, String.toList_append]
      exact (word "not" (by decide)).append (' ' :: operand.text.toList)
  | call x receiver all ih =>
    rw [text, String.append_assoc, String.append_assoc, String.toList_append]
    exact ih.append _
  | property x receiver isName ih =>
    rw [text, String.append_assoc, String.toList_append]
    exact ih.append _
  | index x receiver i ih =>
    rw [text, String.append_assoc, String.append_assoc, String.toList_append]
    exact ih.append _
  | string | binary | logical | array | map =>
    simp only [text, String.append_assoc, String.toList_append]
    exact symbol _ (by decide) _

/-! ## Spellings -/

theorem spells_operator (op : Operator) :
    Spells BlankAhead op.symbol.toList [.mark op.mark] := by
  have anywhere : ∀ rest, BlankAhead rest → Anywhere rest := fun _ _ => trivial
  cases op with
  | floorDivide | power | equal | notEqual | lessEqual | greaterEqual =>
    exact (spells_pair (by decide) (by decide)).mono anywhere
  | _ => exact spells_before_blank (by decide) (by decide)

theorem stops_of_blankAhead {rest : List Char} (h : BlankAhead rest) :
    Text.Stops inName rest := by
  obtain ⟨behind, rfl⟩ := h
  exact (EndsText.closer (by decide)).stops

theorem spells_connective (op : Connective) :
    Spells BlankAhead op.symbol.toList [.mark op.mark] := by
  have word : ∀ rest, BlankAhead rest → Text.Stops inName rest := fun _ => stops_of_blankAhead
  cases op with
  | and => exact (spells_word (by decide) (by decide) (by decide)).mono word
  | or => exact (spells_word (by decide) (by decide) (by decide)).mono word

section Parts

variable {α : Type} {front : List Char} {ks : List Kind}

theorem listed_singleton (part : List Kind) : listed [part] = part :=
  List.intercalate_singleton

theorem listed_cons_cons (part next : List Kind) (rest : List (List Kind)) :
    listed (part :: next :: rest) = part ++ ([.mark .comma] ++ listed (next :: rest)) := by
  rw [listed, List.intercalate_cons_cons, List.append_assoc, listed]

theorem listed_cons_ne_nil {part : List Kind} (some : part ≠ []) (rest : List (List Kind)) :
    listed (part :: rest) ≠ [] := by
  cases rest with
  | nil => rwa [listed_singleton]
  | cons next rest =>
    rw [listed_cons_cons]
    exact List.append_ne_nil_of_left_ne_nil some _

/-- Parts that are spelled one by one are spelled with commas between them. -/
theorem spells_listed {parts : List α} {textOf : α → String} {kindsOf : α → List Kind}
    (each : ∀ part ∈ parts, Spells EndsText (textOf part).toList (kindsOf part))
    (some : ∀ part ∈ parts, kindsOf part ≠ []) :
    Spells EndsText (String.intercalate ", " (parts.map textOf)).toList
      (listed (parts.map kindsOf)) := by
  rw [String.toList_intercalate, List.map_map]
  induction parts with
  | nil => exact spells_nil EndsText
  | cons part parts ih =>
    obtain ⟨here, later⟩ := List.forall_mem_cons.1 each
    obtain ⟨-, some⟩ := List.forall_mem_cons.1 some
    have spells := ih later some
    cases parts with
    | nil =>
      rw [listed]
      simpa only [List.map_cons, List.map_nil, List.intercalate_singleton, Function.comp_apply]
        using here
    | cons next parts =>
      have comma : Spells Anywhere [','] [.mark .comma] := spells_delimiter (by decide)
      have some_next := listed_cons_ne_nil (some next (List.mem_cons_self ..)) (parts.map kindsOf)
      simp only [List.map_cons, List.intercalate_cons_cons, listed_cons_cons, List.append_assoc]
        at spells ⊢
      exact here.append (comma.append (spells.blank some_next) fun _ _ => trivial)
        fun _ _ => .closer (by decide)

/-- What is spelled is spelled between brackets. -/
theorem spells_bracketed (opening closing : Char × Mark) (o : opening ∈ delimiters)
    (c : closing ∈ delimiters) (closes : closing.1 ∈ closers) (spells : Spells EndsText front ks) :
    Spells Anywhere ([opening.1] ++ (front ++ [closing.1]))
      ([.mark opening.2] ++ (ks ++ [.mark closing.2])) :=
  (spells_delimiter o).append
    (spells.append (spells_delimiter c) fun _ _ => .closer closes) fun _ _ => trivial

/-- Two operands and an operator are spelled between parentheses. -/
theorem spells_operands {left right symbol : List Char} {ls rs : List Kind} {m : Mark}
    (l : Spells EndsText left ls) (op : Spells BlankAhead symbol [.mark m])
    (r : Spells EndsText right rs) (some : rs ≠ []) :
    Spells Anywhere (['('] ++ (left ++ (' ' :: (symbol ++ ' ' :: right)) ++ [')']))
      ([.mark .leftParen] ++ (ls ++ ([.mark m] ++ rs) ++ [.mark .rightParen])) := by
  have tail : Spells EndsText (' ' :: (symbol ++ ' ' :: right)) ([.mark m] ++ rs) :=
    (op.append (r.blank some) fun rest _ => ⟨right ++ rest, rfl⟩).blank (List.cons_ne_nil _ _)
  exact spells_bracketed ('(', .leftParen) (')', .rightParen) (by decide) (by decide) (by decide)
    (l.append tail fun _ _ => .closer (by decide))

end Parts

/-- An expression has a token. -/
theorem kinds_ne_nil (e : Expr) : e.kinds ≠ [] := by
  cases e <;> simp [kinds]

/-- An entry of a map is spelled by its key, a colon and its value. -/
theorem spells_entry {key : String} {value : Expr} (isName : IsName key)
    (spells : Spells EndsText value.text.toList value.kinds) :
    Spells EndsText (textOfEntry (key, value)).toList (kindsOfEntry (key, value)) := by
  have colon : Spells Anywhere [':'] [.mark .colon] := spells_delimiter (by decide)
  have no_name : inName ':' = false := by decide
  have whole := (spells_name isName).append
    (colon.append (spells.blank value.kinds_ne_nil) fun _ _ => trivial)
    fun _ _ c mem => Option.some.inj mem ▸ no_name
  simpa [textOfEntry, kindsOfEntry] using whole

/-- **The text of a printable expression** spells the tokens of the expression, if the texts of its
number literals are read back. -/
theorem Printable.spells {e : Expr} (h : Printable e)
    (back : ∀ x ∈ e.numbers, Number.ReadsBack x) : Spells EndsText e.text.toList e.kinds := by
  have stops : ∀ rest, EndsText rest → Text.Stops inName rest := fun _ ends => ends.stops
  have anywhere : ∀ rest, EndsText rest → Anywhere rest := fun _ _ => trivial
  have opens : ∀ c ∈ ['(', '['], ∀ rest, EndsText (c :: rest) := fun c mem _ =>
    .closer ((List.all_iff_forall_prop.1 (by decide) : ∀ c ∈ ['(', '['], c ∈ closers) c mem)
  induction h with
  | number unsigned =>
    rw [text]
    exact (spells_number unsigned (back _ (List.mem_singleton_self _))).mono
      fun _ ends => ends.endsNumber
  | string verbatim =>
    rw [text, String.append_assoc, String.toList_append, String.toList_append]
    exact (spells_string verbatim).mono anywhere
  | bool value =>
    cases value <;>
      exact (spells_word (by decide) (by decide) (by decide)).mono stops
  | null => exact (spells_word (by decide) (by decide) (by decide)).mono stops
  | «variable» isName => exact (spells_name isName).mono stops
  | @binary op left right l r _ ihl ihr =>
    obtain ⟨backl, backr⟩ := List.forall_mem_append.1 back
    have whole := spells_operands (ihl backl) (spells_operator op) (ihr backr) right.kinds_ne_nil
    simpa [text, kinds] using whole.mono anywhere
  | @logical op left right l r ihl ihr =>
    obtain ⟨backl, backr⟩ := List.forall_mem_append.1 back
    have whole := spells_operands (ihl backl) (spells_connective op) (ihr backr) right.kinds_ne_nil
    simpa [text, kinds] using whole.mono anywhere
  | @unary op operand x ih =>
    cases op with
    | negate =>
      obtain ⟨c, front, starts, -, no_assign⟩ := x.startsText
      have whole := spells_minus.append (ih back) fun rest _ next mem => by
        rw [starts] at mem
        exact Option.some.inj mem ▸ no_assign
      simpa [text, kinds, Unary.mark] using whole
    | not =>
      have word : Spells BlankAhead "not".toList [.mark .notWord] :=
        (spells_word (by decide) (by decide) (by decide)).mono fun _ =>
          stops_of_blankAhead
      have whole := word.append ((ih back).blank operand.kinds_ne_nil) fun rest _ => ⟨_, rfl⟩
      simpa [text, kinds, Unary.mark] using whole
  | @call callee args x receiver all ih ihs =>
    obtain ⟨back, backs⟩ := List.forall_mem_append.1 back
    rw [numbersAll_eq_flatMap] at backs
    have inside := spells_listed (fun arg mem => ihs arg mem fun x here =>
      backs x (List.mem_flatMap_of_mem mem here)) fun arg _ => arg.kinds_ne_nil
    have brackets := spells_bracketed ('(', .leftParen) (')', .rightParen) (by decide)
      (by decide) (by decide) inside
    have whole := (ih back).append brackets fun rest _ => opens '(' (by decide) _
    simpa [text, kinds, texts_eq_map, kindsAll_eq_map] using whole.mono anywhere
  | @property object name x receiver isName ih =>
    obtain ⟨c, front, letters, starts⟩ := isName.1.exists_cons
    have suffix := spells_dot.append (spells_name isName) fun rest _ => by
      rw [letters]
      exact isDecimalDigit_of_startsName starts
    have whole := (ih back).append suffix fun rest _ => by
      rw [letters]
      exact .property starts
    simpa [text, kinds] using whole.mono stops
  | @index object position x receiver i ih ihi =>
    obtain ⟨back, backi⟩ := List.forall_mem_append.1 back
    have brackets := spells_bracketed ('[', .leftBracket) (']', .rightBracket) (by decide)
      (by decide) (by decide) (ihi backi)
    have whole := (ih back).append brackets fun rest _ => opens '[' (by decide) _
    simpa [text, kinds] using whole.mono anywhere
  | @array items all ihs =>
    rw [numbers, numbersAll_eq_flatMap] at back
    have inside := spells_listed (fun item mem => ihs item mem fun x here =>
      back x (List.mem_flatMap_of_mem mem here)) fun item _ => item.kinds_ne_nil
    have brackets := spells_bracketed ('[', .leftBracket) (']', .rightBracket) (by decide)
      (by decide) (by decide) inside
    simpa [text, kinds, texts_eq_map, kindsAll_eq_map] using brackets.mono anywhere
  | @map entries keys values ihs =>
    rw [numbers, entryNumbers_eq_flatMap] at back
    have inside := spells_listed (fun entry mem => spells_entry (keys entry mem)
      (ihs entry mem fun x here => back x (List.mem_flatMap_of_mem mem here)))
      fun entry _ => List.cons_ne_nil _ _
    have brackets := spells_bracketed ('\x7b', .leftBrace) ('\x7d', .rightBrace) (by decide)
      (by decide) (by decide) inside
    simpa [text, kinds, entryTexts_eq_map, entryKinds_eq_map] using brackets.mono anywhere

end Expr

end SheetScript
