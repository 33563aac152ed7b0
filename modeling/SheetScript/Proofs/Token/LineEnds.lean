import Mathlib.Data.List.TakeWhile
import SheetScript.Proofs.Token.Abreast

/-!
# Two ways to end a line

Some write a carriage return before each line feed. To the lexer that is the same, unless a
backslash continues a line: a carriage return behind it is no line end.

* `signs region cs` lists what the line feeds and the backslashes of a text are, read once from the
  left to the right: a line ends, goes on in the next one, or does so inside of a string, or a
  backslash is stray.
* `Together` are the texts of two lexers, one with the other line ends. They go on together
  (`keeps_together`).
* `strays_tokenize`: the tokens have as many stray backslashes as the text.
* `kinds_withReturns_iff`: the kinds of the tokens stay exactly if no line is continued.
-/

namespace SheetScript.Token

/-! ## Regions of a source -/

/-- Where a character of a source stands. -/
inductive Region where
  | code
  | comment
  | string (quote : Char)
  deriving DecidableEq, Repr

/-- The region behind a character that ends no line. -/
def Region.behind (c : Char) : Region → Region
  | code => if c = '#' then comment else if c = '"' ∨ c = '\'' then string c else code
  | comment => comment
  | string quote => if c = quote then code else string quote

/-- What a line feed or a backslash is. -/
inductive Sign where
  | lineEnd
  /-- A line is continued by a backslash. -/
  | continuation
  /-- A string is continued by a backslash on the next line. -/
  | inString
  /-- A backslash in the code that no line feed follows. -/
  | stray
  deriving DecidableEq, Repr

/-- The line feeds of a text and the backslashes of its code. -/
@[simp]
def signs : Region → List Char → List Sign
  | _, [] => []
  | .code, '\\' :: '\n' :: rest => .continuation :: signs .code rest
  | .string quote, '\\' :: c :: rest =>
    if c = '\n' then .inString :: signs (.string quote) rest else signs (.string quote) rest
  | region, c :: rest =>
    if c = '\n' then .lineEnd :: signs .code rest
    else if c = '\\' ∧ region = .code then .stray :: signs .code rest
    else signs (region.behind c) rest

/-- A text with a carriage return before each line feed. -/
def crlf (cs : List Char) : List Char := cs.flatMap fun c => if c = '\n' then ['\r', '\n'] else [c]

/-- A source with a carriage return before each line feed. -/
def withReturns (source : String) : String := String.ofList (crlf source.toList)

variable {c quote : Char} {cs rest text : List Char} {region : Region}

theorem crlf_newline (rest : List Char) : crlf ('\n' :: rest) = '\r' :: '\n' :: crlf rest := rfl

theorem crlf_cons (inline : c ≠ '\n') (rest : List Char) : crlf (c :: rest) = c :: crlf rest := by
  simp [crlf, inline]

theorem crlf_line (inline : '\n' ∉ cs) (rest : List Char) :
    crlf (cs ++ rest) = cs ++ crlf rest := by
  induction cs with
  | nil => rfl
  | cons c cs ih =>
    obtain ⟨here, later⟩ := List.ne_and_not_mem_of_not_mem_cons inline
    rw [List.cons_append, crlf_cons here.symm, ih later, List.cons_append]

theorem head?_crlf (cs : List Char) : (crlf cs).head? ≠ some '\n' := by
  cases cs with
  | nil => exact nofun
  | cons c rest =>
    by_cases feed : c = '\n'
    · subst feed
      exact fun eq => absurd (Option.some.inj eq) (by decide)
    · rw [crlf_cons feed]
      exact fun eq => feed (Option.some.inj eq)

/-! ## What is passed over -/

/-- Nothing but the code of a line. -/
def InCode (c : Char) : Prop := c ∉ ['\n', '\\', '#', '"', '\'']

instance (c : Char) : Decidable (InCode c) := inferInstanceAs (Decidable (_ ∉ _))

theorem signs_newline (region : Region) (rest : List Char) :
    signs region ('\n' :: rest) = .lineEnd :: signs .code rest := by
  cases region <;> simp

theorem signs_continuation (rest : List Char) :
    signs .code ('\\' :: '\n' :: rest) = .continuation :: signs .code rest := rfl

theorem signs_code (h : InCode c) (rest : List Char) :
    signs .code (c :: rest) = signs .code rest := by
  simp only [InCode, List.mem_cons, List.not_mem_nil, or_false, not_or] at h
  obtain ⟨feed, slash, sign, quote, quote'⟩ := h
  simp [Region.behind, feed, slash, sign, quote, quote']

theorem signs_span {span : List Char} (h : ∀ c ∈ span, InCode c) (rest : List Char) :
    signs .code (span ++ rest) = signs .code rest := by
  induction span with
  | nil => rfl
  | cons c span ih =>
    obtain ⟨here, later⟩ := List.forall_mem_cons.1 h
    rw [List.cons_append, signs_code here, ih later]

theorem signs_quote (isQuote : c = '"' ∨ c = '\'') (rest : List Char) :
    signs .code (c :: rest) = signs (.string c) rest := by
  obtain rfl | rfl := isQuote <;> simp [Region.behind]

theorem signs_comment (inline : '\n' ∉ text) (rest : List Char) :
    signs .comment (text ++ rest) = signs .comment rest := by
  induction text with
  | nil => rfl
  | cons c text ih =>
    obtain ⟨here, later⟩ := List.ne_and_not_mem_of_not_mem_cons inline
    simp [here.symm, Region.behind, ih later]

/-- At the end of a line, all regions end. -/
theorem signs_lineEnd (ends : ∀ c ∈ rest.head?, c = '\n') (region : Region) :
    signs region rest = signs .code rest := by
  cases rest with
  | nil => simp
  | cons c rest =>
    obtain rfl := ends c rfl
    rw [signs_newline, signs_newline]

/-- The signs of a text are some with so many stray backslashes, and then those of the rest. -/
def Passes (region : Region) (cs : List Char) (strays : Nat) (rest : List Char) : Prop :=
  ∃ passed, signs region cs = passed ++ signs .code rest ∧ passed.count .stray = strays

namespace Passes

variable {rest' : List Char} {strays strays' : Nat}

theorem refl (cs : List Char) : Passes .code cs 0 cs := ⟨[], rfl, rfl⟩

theorem of_eq (h : signs region cs = signs .code rest) : Passes region cs 0 rest := ⟨[], h, rfl⟩

theorem trans (h : Passes region cs strays rest) (h' : Passes .code rest strays' rest') :
    Passes region cs (strays + strays') rest' := by
  obtain ⟨passed, eq, count⟩ := h
  obtain ⟨passed', eq', count'⟩ := h'
  exact ⟨passed ++ passed', by rw [eq, eq', List.append_assoc],
    by rw [List.count_append, count, count']⟩

/-- One sign more in front. -/
theorem cons {s : Sign} {cs' : List Char} {region' : Region} (h : Passes region cs strays rest)
    (eq : signs region' cs' = s :: signs region cs) (no_stray : s ≠ .stray) :
    Passes region' cs' strays rest := by
  obtain ⟨passed, eq', count⟩ := h
  exact ⟨s :: passed, by rw [eq, eq', List.cons_append], by
    rw [List.count_cons_of_ne no_stray, count]⟩

theorem of_signs_eq {cs' : List Char} {region' : Region} (h : Passes region cs strays rest)
    (eq : signs region' cs' = signs region cs) :
    Passes region' cs' strays rest := by
  obtain ⟨passed, eq', count⟩ := h
  exact ⟨passed, eq.trans eq', count⟩

theorem newline (rest : List Char) : Passes .code ('\n' :: rest) 0 rest := ⟨[.lineEnd], rfl, rfl⟩

/-- A sign that is not in the whole is not in the rest. -/
theorem not_mem (h : Passes region cs strays rest) {s : Sign} (none : s ∉ signs region cs) :
    s ∉ signs .code rest := by
  obtain ⟨passed, eq, -⟩ := h
  rw [eq] at none
  exact fun mem => none (List.mem_append_right _ mem)

end Passes

theorem inCode_of_isBlank (h : Text.isBlank c = true) (no_end : c ≠ '\n') : InCode c := by
  have others : ∀ c ∈ ['\\', '#', '"', '\''], Text.isBlank c = false :=
    List.all_iff_forall_prop.1 (by decide)
  exact fun mem => (List.mem_cons.1 mem).elim no_end fun mem =>
    absurd h (Bool.eq_false_iff.1 (others c mem))

/-- What the lexer skips has no stray backslash. -/
theorem Skips.passes (h : Skips cs rest) : Passes .code cs 0 rest := by
  induction h with
  | here cs => exact .refl cs
  | @blank c cs rest blank _ ih =>
    by_cases feed : c = '\n'
    · subst feed
      exact ih.cons (signs_newline .code cs) nofun
    · exact ih.of_signs_eq (signs_code (inCode_of_isBlank blank feed) cs)
  | continuation _ ih => exact ih.cons (signs_continuation _) nofun
  | @comment text cs rest inline ends _ ih =>
    have start : signs .code ('#' :: (text ++ cs)) = signs .comment (text ++ cs) := by
      simp [Region.behind]
    exact ih.of_signs_eq (start.trans ((signs_comment inline cs).trans (signs_lineEnd ends _)))

/-! ## What a lexeme passes -/

/-- The fault of a backslash that continues nothing. -/
def strayBackslash : Kind := .fault (.unexpectedCharacter '\\')

theorem inCode_of_isDecimalDigit (h : Text.isDecimalDigit c = true) : InCode c := by
  have all : ∀ c ∈ ['\n', '\\', '#', '"', '\''], Text.isDecimalDigit c = false :=
    List.all_iff_forall_prop.1 (by decide)
  exact fun mem => absurd h (Bool.eq_false_iff.1 (all c mem))

theorem inCode_of_inName (h : Lexeme.inName c = true) : InCode c := by
  have all : ∀ c ∈ ['\n', '\\', '#', '"', '\''], Lexeme.inName c = false :=
    List.all_iff_forall_prop.1 (by decide)
  exact fun mem => absurd h (Bool.eq_false_iff.1 (all c mem))

namespace Lexeme

/-- A lexeme that is written as its text, in the code of a line. -/
structure Inline (lexeme : Lexeme) : Prop where
  inCode : ∀ c ∈ lexeme.text.toList, InCode c
  itself {span : List Char} (h : IsSpan lexeme.kind lexeme.text span) : lexeme.text.toList = span
  no_stray : lexeme.kind ≠ strayBackslash

theorem inline_plain {kind : Kind} {span : List Char} (inCode : ∀ c ∈ span, InCode c)
    (itself : ∀ text span, IsSpan kind text span → text.toList = span)
    (no_stray : kind ≠ strayBackslash) : (plain kind span).Inline :=
  ⟨by rwa [plain, String.toList_ofList], itself _ _, no_stray⟩

theorem inline_number (cs : List Char) : (number cs).Inline := by
  refine inline_plain (List.forall_mem_append.2 ⟨?_, ?_⟩) (fun _ _ => id) nofun
  · exact fun c mem => inCode_of_isDecimalDigit (List.mem_takeWhile_imp mem)
  · generalize cs.dropWhile Text.isDecimalDigit = behind
    split
    · exact List.forall_mem_nil _
    · refine List.forall_mem_cons.2 ⟨by decide, fun c mem => ?_⟩
      unfold fractionDigits at mem
      split at mem
      · exact inCode_of_isDecimalDigit (List.mem_takeWhile_imp mem)
      · exact absurd mem List.not_mem_nil

theorem inline_name (cs : List Char) : (name cs).Inline := by
  have inCode : ∀ c ∈ cs.takeWhile inName, InCode c := fun c mem =>
    inCode_of_inName (List.mem_takeWhile_imp mem)
  unfold name
  refine inline_plain inCode ?_ ?_
  · split <;> exact fun _ _ => id
  · split <;> exact nofun

theorem mem_of_lookup {α : Type} [BEq α] [LawfulBEq α] {table : List (α × Mark)} {key : α}
    {m : Mark} (h : table.lookup key = some m) : (key, m) ∈ table := by
  obtain ⟨before, behind, eq, -⟩ := List.lookup_eq_some_iff.1 h
  rw [eq]
  exact List.mem_append_right _ List.mem_cons_self

theorem inline_symbol (c : Char) (rest : List Char) :
    (symbol c rest).Inline ∨ symbol c rest = plain (.fault (.unexpectedCharacter c)) [c] := by
  have pairs : ∀ entry ∈ Mark.pairs, InCode entry.1.1 ∧ InCode entry.1.2 := by decide
  have singles : ∀ entry ∈ Mark.singles, InCode entry.1 := by decide
  unfold symbol
  dsimp only
  split
  · next next m pair =>
    obtain ⟨d, -, known⟩ := Option.bind_eq_some_iff.1 pair
    obtain ⟨m', listed, same⟩ := Option.bind_eq_some_iff.1 known
    obtain ⟨rfl, rfl⟩ := Prod.mk.inj (Option.some.inj same)
    have inCode := pairs _ (mem_of_lookup listed)
    refine .inl (inline_plain ?_ (fun _ _ => id) nofun)
    exact List.forall_mem_cons.2 ⟨inCode.1, List.forall_mem_singleton.2 inCode.2⟩
  · split
    · next m known =>
      refine .inl (inline_plain ?_ (fun _ _ => id) nofun)
      exact List.forall_mem_singleton.2 (singles _ (mem_of_lookup known))
    · exact .inr rfl

/-- A lexeme that is no string is written in the code of a line, or it is a character that starts no
token. -/
theorem inline_ofCons (no_quote : ¬(c = '"' ∨ c = '\'')) (rest : List Char) :
    (ofCons c rest).Inline ∨ ofCons c rest = plain (.fault (.unexpectedCharacter c)) [c] := by
  unfold ofCons
  split
  · exact .inl (inline_number _)
  · split
    · exact .inl (inline_name _)
    · rw [if_neg (by simpa using no_quote)]
      exact inline_symbol c rest

theorem kind_string (quote : Char) (rest : List Char) :
    (string quote rest).kind ≠ strayBackslash := by
  unfold string
  dsimp only
  split <;> exact nofun

/-- A string passes the line ends that are escaped in it. -/
theorem passes_bodyFrom (isQuote : quote = '"' ∨ quote = '\'') (before : List Char) (length : Nat)
    (cs : List Char) : ∃ taken, (bodyFrom quote before length cs).length = length + taken ∧
      Passes (.string quote) cs 0 (cs.drop taken) := by
  have slash : quote ≠ '\\' := by rintro rfl; simp at isQuote
  have feed : quote ≠ '\n' := by rintro rfl; simp at isQuote
  fun_induction bodyFrom quote before length cs with
  | case1 before length => exact ⟨0, rfl, .of_eq (by simp [signs])⟩
  | case2 before length => exact ⟨1, rfl, .of_eq (by simp [signs])⟩
  | case3 before length c rest ih =>
    obtain ⟨taken, eq, passes⟩ := ih
    refine ⟨taken + 2, by omega, ?_⟩
    by_cases feed : c = '\n'
    · exact passes.cons (s := .inString) (by simp [signs, feed]) fun eq => by cases eq
    · exact passes.of_signs_eq (by simp [signs, feed])
  | case4 before length c rest _ _ closes =>
    obtain rfl := beq_iff_eq.1 closes
    exact ⟨1, rfl, .of_eq (by simp [Region.behind, feed, slash])⟩
  | case5 before length c rest _ _ _ ends =>
    obtain rfl := beq_iff_eq.1 ends
    exact ⟨0, rfl, .of_eq (by rw [List.drop_zero, signs_newline, signs_newline])⟩
  | case6 before length c rest ends escapes open_quote inline ih =>
    obtain ⟨taken, eq, passes⟩ := ih
    have no_escape : c ≠ '\\' := fun slash => by
      cases rest with
      | nil => exact ends slash rfl
      | cons c' rest => exact escapes c' rest slash rfl
    refine ⟨taken + 1, by omega, passes.of_signs_eq ?_⟩
    rw [beq_iff_eq] at open_quote inline
    simp [Region.behind, no_escape, open_quote, inline]

end Lexeme

/-- A lexeme passes a stray backslash if it is one. -/
theorem AtLexeme.passes (h : AtLexeme c rest) : Passes .code (c :: rest)
    (if (Lexeme.ofCons c rest).kind = strayBackslash then 1 else 0)
    ((c :: rest).drop (Lexeme.ofCons c rest).length) := by
  by_cases isQuote : c = '"' ∨ c = '\''
  · obtain ⟨taken, eq, passes⟩ := Lexeme.passes_bodyFrom isQuote [] 0 rest
    rw [Lexeme.ofCons_quote isQuote, if_neg (Lexeme.kind_string c rest), Lexeme.length_string, eq,
      Nat.zero_add, List.drop_succ_cons]
    exact passes.of_signs_eq (signs_quote isQuote rest)
  · obtain inline | eq := Lexeme.inline_ofCons isQuote rest
    · obtain ⟨span, spans⟩ := Lexeme.exists_span c rest
      obtain ⟨behind, front⟩ := spans.front
      have inCode := inline.inCode
      rw [inline.itself spans.isSpan] at inCode
      rw [if_neg inline.no_stray, spans.length_eq, ← front, List.drop_left]
      exact .of_eq (signs_span inCode behind)
    · have code : signs .code (c :: rest) =
          (if c = '\\' then [.stray] else []) ++ signs .code rest := by
        split
        · next slash =>
          subst slash
          cases rest with
          | nil => rfl
          | cons d rest => simp [signs, mt (congrArg some) (h.no_continuation rfl)]
        · next no_slash =>
          refine signs_code ?_ rest
          simp [InCode, h.no_end, h.no_comment, no_slash, not_or.1 isQuote]
      rw [eq]
      refine ⟨_, code, ?_⟩
      by_cases slash : c = '\\'
      · subst slash
        rfl
      · have no_stray : Kind.fault (.unexpectedCharacter c) ≠ strayBackslash := fun eq => by
          cases eq
          exact slash rfl
        rw [if_neg slash, Lexeme.plain, if_neg no_stray]
        rfl

/-! ## Carriage returns -/

/-- A text, and what a lexer has of it ahead with the other line ends: it may have passed the
carriage return. -/
inductive Meets : List Char → List Char → Prop
  | whole (cs : List Char) : Meets cs (crlf cs)
  | feed (rest : List Char) : Meets ('\n' :: rest) ('\n' :: crlf rest)

/-- What is ahead behind a carriage return, if one is. -/
def pastReturn : List Char → List Char
  | '\n' :: rest => '\n' :: crlf rest
  | cs => crlf cs

theorem pastReturn_cons (inline : c ≠ '\n') (rest : List Char) :
    pastReturn (c :: rest) = c :: crlf rest := by
  rw [pastReturn, crlf_cons inline]
  rintro _ ⟨⟩
  exact inline rfl

theorem nextLine_crlf (width : Nat) (comment : Bool) (cs : List Char) :
    nextLine width comment (crlf cs) =
      (nextLine width comment cs).map fun found => (found.1, crlf found.2) := by
  have carriage : ∀ width comment rest,
      nextLine width comment ('\r' :: '\n' :: rest) = nextLine 0 false rest := by
    intro width comment rest
    cases comment <;> rfl
  fun_induction nextLine width comment cs with
  | case1 => rfl
  | case2 width comment rest ih => rw [crlf_newline, carriage, ih]
  | case3 width comment c rest no_end starts ih =>
    rw [crlf_cons no_end, nextLine, if_pos starts, ih]
    exact no_end
  | case4 width comment c rest no_end outside within ih =>
    rw [crlf_cons no_end, nextLine, if_neg outside, if_pos within, ih]
    exact no_end
  | case5 width comment c rest no_end outside some =>
    rw [crlf_cons no_end, nextLine, if_neg outside, if_neg some]
    · rw [Option.map_some, crlf_cons no_end]
    · exact no_end

/-- The next line is the same. -/
theorem Meets.nextLine {cs' : List Char} (h : Meets cs cs') :
    nextLine 0 false cs' = (nextLine 0 false cs).map fun found => (found.1, crlf found.2) := by
  cases h with
  | whole => exact nextLine_crlf 0 false cs
  | feed rest => exact nextLine_crlf 0 false rest

/-- What is left behind a gap has passed the carriage return. -/
theorem afterGap_crlf (bracketed comment : Bool) (cs : List Char)
    (whole : .continuation ∉ signs (if comment then .comment else .code) cs) :
    afterGap bracketed comment (crlf cs) = pastReturn (afterGap bracketed comment cs) := by
  have carriage : ∀ comment rest, afterGap bracketed comment ('\r' :: '\n' :: rest) =
      if bracketed then afterGap bracketed false rest else '\n' :: rest := by
    intro comment rest
    cases comment <;> rfl
  have escaped : ∀ rest, afterGap bracketed true ('\\' :: '\r' :: '\n' :: rest) =
      if bracketed then afterGap bracketed false rest else '\n' :: rest := fun _ => rfl
  -- behind a character, a carriage return comes before the line feed
  have stays : ∀ (c : Char) (rest next : List Char), c = '\\' → crlf rest = '\n' :: next → False :=
    fun _ rest next _ eq => head?_crlf rest (by rw [eq]; rfl)
  fun_induction afterGap bracketed comment cs with
  | case1 => rfl
  | case2 comment rest inside ih =>
    rw [crlf_newline, carriage, if_pos inside]
    rw [signs_newline, List.mem_cons, not_or] at whole
    exact ih whole.2
  | case3 comment rest outside =>
    rw [crlf_newline, carriage, if_neg outside]
    rfl
  | case4 rest inside ih =>
    have step : crlf ('\\' :: '\n' :: rest) = '\\' :: '\r' :: '\n' :: crlf rest := rfl
    have region : signs .comment ('\\' :: '\n' :: rest) = .lineEnd :: signs .code rest := rfl
    rw [if_pos rfl, region, List.mem_cons, not_or] at whole
    rw [step, escaped, if_pos inside]
    exact ih whole.2
  | case5 rest outside =>
    have step : crlf ('\\' :: '\n' :: rest) = '\\' :: '\r' :: '\n' :: crlf rest := rfl
    rw [step, escaped, if_neg outside]
    rfl
  | case6 comment rest outside ih =>
    rw [if_neg outside, signs_continuation] at whole
    exact absurd List.mem_cons_self whole
  | case7 comment c rest no_end no_continuation starts ih =>
    have region :
        signs (if comment then .comment else .code) (c :: rest) = signs .comment rest := by
      have inline : '\n' ∉ [c] := fun mem => no_end (List.mem_singleton.1 mem).symm
      cases comment with
      | true => exact signs_comment inline rest
      | false =>
        obtain rfl : c = '#' := beq_iff_eq.1 starts
        simp [Region.behind]
    rw [region] at whole
    rw [crlf_cons no_end, afterGap_cons no_end (stays c rest), if_pos starts]
    exact ih whole
  | case8 comment c rest no_end no_continuation outside blank ih =>
    have outer : comment = false := (Bool.or_eq_false_iff.1 (Bool.eq_false_iff.2 outside)).1
    rw [outer, if_neg Bool.false_ne_true, signs_code (inCode_of_isBlank blank no_end)] at whole
    rw [crlf_cons no_end, afterGap_cons no_end (stays c rest), if_neg outside, if_pos blank]
    exact ih whole
  | case9 comment c rest no_end no_continuation outside some =>
    rw [crlf_cons no_end, afterGap_cons no_end (stays c rest), if_neg outside, if_neg some,
      pastReturn_cons no_end]

namespace Lexeme

/-- The end of a string is found in the same place. -/
theorem bodyFrom_crlf (isQuote : quote = '"' ∨ quote = '\'') (before : List Char) (length : Nat)
    (cs : List Char) (whole : .inString ∉ signs (.string quote) cs) :
    (bodyFrom quote before length (crlf cs)).closed = (bodyFrom quote before length cs).closed ∧
      ((bodyFrom quote before length cs).closed = true →
        (bodyFrom quote before length (crlf cs)).value =
          (bodyFrom quote before length cs).value) ∧
      ∃ taken taken', (bodyFrom quote before length cs).length = length + taken ∧
        (bodyFrom quote before length (crlf cs)).length = length + taken' ∧
        Meets (cs.drop taken) ((crlf cs).drop taken') := by
  have others : ∀ c ∈ ['\\', '\n', '\r'], c ≠ quote := by
    obtain rfl | rfl := isQuote <;> exact List.all_iff_forall_prop.1 (by decide)
  fun_induction bodyFrom quote before length cs with
  | case1 before length =>
    exact ⟨rfl, fun closed => absurd closed Bool.false_ne_true, 0, 0, rfl, rfl, .whole []⟩
  | case2 before length =>
    exact ⟨rfl, fun closed => absurd closed Bool.false_ne_true, 1, 1, rfl, rfl, .whole []⟩
  | case3 before length c rest ih =>
    have inline : c ≠ '\n' := by
      rintro rfl
      exact whole (by simp [signs])
    have later : signs (.string quote) ('\\' :: c :: rest) = signs (.string quote) rest := by
      simp [signs, inline]
    obtain ⟨closed, value, taken, taken', eq, eq', meets⟩ := ih (later ▸ whole)
    rw [crlf_cons (by decide), crlf_cons inline]
    exact ⟨closed, value, taken + 2, taken' + 2, by omega, by rw [bodyFrom]; omega, meets⟩
  | case4 before length c rest _ _ closes =>
    obtain rfl := beq_iff_eq.1 closes
    have inline : c ≠ '\n' := fun eq => others '\n' (by simp) eq.symm
    have no_escape : c ≠ '\\' := fun eq => others '\\' (by simp) eq.symm
    rw [crlf_cons inline, bodyFrom_cons before length no_escape, if_pos closes]
    exact ⟨rfl, fun _ => rfl, 1, 1, rfl, rfl, .whole rest⟩
  | case5 before length c rest _ _ open_quote ends =>
    obtain rfl := beq_iff_eq.1 ends
    have carriage : ('\r' == quote) = false := beq_false_of_ne (others '\r' (by simp))
    -- the carriage return is one more character of the string
    rw [crlf_newline, bodyFrom_cons before length (by decide), carriage,
      if_neg Bool.false_ne_true, if_neg (by decide),
      bodyFrom_cons _ _ (by decide), if_neg open_quote, if_pos ends]
    exact ⟨rfl, fun closed => absurd closed Bool.false_ne_true, 0, 1, rfl, rfl, .feed rest⟩
  | case6 before length c rest last escapes open_quote inline ih =>
    have no_escape : c ≠ '\\' := fun slash => by
      cases rest with
      | nil => exact last slash rfl
      | cons c' rest => exact escapes c' rest slash rfl
    have feed : c ≠ '\n' := fun eq => inline (beq_iff_eq.2 eq)
    have later : signs (.string quote) (c :: rest) = signs (.string quote) rest := by
      rw [beq_iff_eq] at open_quote
      simp [Region.behind, no_escape, open_quote, feed]
    obtain ⟨closed, value, taken, taken', eq, eq', meets⟩ := ih (later ▸ whole)
    rw [crlf_cons feed, bodyFrom_cons before length no_escape, if_neg open_quote, if_neg inline]
    exact ⟨closed, value, taken + 1, taken' + 1, by omega, by omega, meets⟩

end Lexeme

/-- A lexeme has the same kind, and the same behind it. -/
theorem AtLexeme.crlf (h : AtLexeme c rest) (whole : .inString ∉ signs .code (c :: rest)) :
    (Lexeme.ofCons c (crlf rest)).kind = (Lexeme.ofCons c rest).kind ∧
      Meets ((c :: rest).drop (Lexeme.ofCons c rest).length)
        ((c :: crlf rest).drop (Lexeme.ofCons c (crlf rest)).length) := by
  by_cases isQuote : c = '"' ∨ c = '\''
  · rw [signs_quote isQuote] at whole
    obtain ⟨closed, value, taken, taken', eq, eq', meets⟩ :=
      Lexeme.bodyFrom_crlf isQuote [] 0 rest whole
    rw [Lexeme.ofCons_quote isQuote, Lexeme.ofCons_quote isQuote, Lexeme.length_string,
      Lexeme.length_string, eq, eq', Nat.zero_add, Nat.zero_add, List.drop_succ_cons,
      List.drop_succ_cons]
    refine ⟨?_, meets⟩
    unfold Lexeme.string
    dsimp only
    rw [closed]
    split
    · next ends => rw [value ends]
    · rfl
  · obtain ⟨line, behind, rfl, inline, ends⟩ := Lexeme.exists_line rest
    have lineEnd : Lexeme.AtLineEnd behind := fun d mem => .inl (ends d mem)
    have lineEnd' : Lexeme.AtLineEnd (Token.crlf behind) := by
      cases behind with
      | nil => exact nofun
      | cons d behind =>
        obtain rfl := ends d rfl
        exact fun d mem => .inr (Option.some.inj mem).symm
    have left : '\n' ∉ (c :: line).drop (Lexeme.ofCons c line).length := fun mem =>
      (List.not_mem_cons_of_ne_of_not_mem h.no_end.symm inline) (List.mem_of_mem_drop mem)
    rw [crlf_line inline, Lexeme.drop_ofCons_line isQuote lineEnd,
      Lexeme.drop_ofCons_line isQuote lineEnd', Lexeme.ofCons_line isQuote lineEnd,
      Lexeme.ofCons_line isQuote lineEnd', ← crlf_line left]
    exact ⟨rfl, .whole _⟩

/-! ## The tokens -/

/-- Texts with the line ends of one and of the other, in which no line is continued. -/
structure Together (cs cs' : List Char) : Prop where
  meets : Meets cs cs'
  uncontinued : .continuation ∉ signs .code cs
  inline : .inString ∉ signs .code cs

theorem Together.past {cs' rest' : List Char} (h : Together cs cs') {strays : Nat}
    (passes : Passes .code cs strays rest) (meets : Meets rest rest') : Together rest rest' :=
  ⟨meets, passes.not_mem h.uncontinued, passes.not_mem h.inline⟩

theorem Together.afterGap {cs' : List Char} (h : Together cs cs') (bracketed : Bool) :
    Token.afterGap bracketed false cs' = pastReturn (Token.afterGap bracketed false cs) := by
  obtain ⟨meets, uncontinued, -⟩ := h
  cases meets with
  | whole => exact afterGap_crlf bracketed false cs uncontinued
  | feed rest =>
    rw [signs_newline, List.mem_cons, not_or] at uncontinued
    cases bracketed with
    | true => exact afterGap_crlf true false rest uncontinued.2
    | false => rfl

/-- Such texts go on together, and the lexer reads the same kinds. -/
theorem keeps_together : Keeps Prod.fst Together where
  line {cs cs'} h := by
    rw [h.meets.nextLine]
    cases next : nextLine 0 false cs with
    | none => exact .none ⟨.whole [], nofun, nofun⟩
    | some found => exact .some (h.past (skips_nextLine next).passes (.whole found.2))
  ahead {cs cs'} h bracketed := by
    have passes := (skips_afterGap bracketed cs).passes
    rw [h.afterGap bracketed]
    cases left : Token.afterGap bracketed false cs with
    | nil => exact .nothing ⟨.whole [], nofun, nofun⟩
    | cons c rest =>
      rw [left] at passes
      obtain rfl | here := atLexeme_of_afterGap left
      · exact .lineEnd (h.past (passes.trans (.newline rest)) (.whole rest))
      · obtain ⟨kind, meets⟩ := here.crlf (passes.not_mem h.inline)
        rw [pastReturn_cons here.no_end, Ahead.ofList, Ahead.ofList]
        · exact .lexeme kind.symm (h.past (passes.trans here.passes) meets)
        · exact here.no_end
        · exact here.no_end

/-! ## Stray backslashes -/

namespace Lexer

variable {l m : Lexer} {t : Token} {ts : List Token}

/-- How many of the tokens are stray backslashes. -/
def strays (ts : List Token) : Nat := ts.countP (·.kind == strayBackslash)

/-- The kinds that are put before what is read: marks of the layout, the end of the input apart, and
their fault. -/
def queuedKinds : List Kind :=
  [.mark .newline, .mark .indent, .mark .dedent, .fault .inconsistentIndentation]

/-- Only such tokens are pending. -/
def Queued (l : Lexer) : Prop := ∀ t ∈ l.pending, t.kind ∈ queuedKinds

theorem strays_of_queued (h : t.kind ∈ queuedKinds ++ [.mark .endOfInput]) : strays [t] = 0 := by
  have no_stray : t.kind ≠ strayBackslash := fun eq => by
    rw [eq] at h
    exact absurd h (by decide)
  simp [strays, no_stray]

theorem Queued.indentTo (l : Lexer) (width : Nat) : (l.indentTo width).Queued := by
  intro t mem
  unfold Lexer.indentTo at mem
  split at mem
  · rw [List.mem_singleton.1 mem]
    exact (by decide : Kind.mark .indent ∈ queuedKinds)
  · obtain mem | mem := List.mem_append.1 mem
    · rw [List.eq_of_mem_replicate mem]
      exact (by decide : Kind.mark .dedent ∈ queuedKinds)
    · split at mem
      · exact absurd mem List.not_mem_nil
      · rw [List.mem_singleton.1 mem]
        exact (by decide : Kind.fault .inconsistentIndentation ∈ queuedKinds)

theorem Queued.measured (h : l.Queued) : l.measured.Queued ∧
    Passes .code l.cursor.rest 0 l.measured.cursor.rest := by
  have passes := (skips_atText l).passes
  by_cases starts : l.Starts
  · rw [measured_of_starts starts]
    by_cases ended : l.atText.cursor.rest = []
    · rw [measureLine_of_nil ended]
      exact ⟨h, passes⟩
    · rw [measureLine_of_ne_nil ended, rest_indentTo]
      exact ⟨.indentTo _ _, passes⟩
  · rw [measured_of_not_starts starts]
    exact ⟨h, .refl _⟩

theorem Queued.takePending (h : l.Queued) (some : l.takePending = some (t, m)) :
    m.Queued ∧ t.kind ∈ queuedKinds := by
  unfold Lexer.takePending at some
  split at some
  · cases some
  · next t rest pending =>
    cases some
    unfold Queued at h
    rw [pending, List.forall_mem_cons] at h
    refine ⟨fun t mem => h.2 t ?_, h.1⟩
    rwa [note_pending] at mem

theorem Queued.finish (h : l.Queued) : l.finish.2.Queued ∧ strays [l.finish.1] = 0 := by
  have closing : l.closing.Queued := by
    unfold Lexer.closing
    split
    · exact h
    · have dedent : Kind.mark .dedent ∈ queuedKinds := by decide
      have newline : Kind.mark .newline ∈ queuedKinds := by decide
      refine List.forall_mem_append.2 ⟨?_, List.forall_mem_map.2 fun _ _ => dedent⟩
      split
      · exact List.forall_mem_singleton.2 newline
      · exact List.forall_mem_nil _
  rw [finish_eq]
  cases pending : l.closing.takePending with
  | none => exact ⟨closing, rfl⟩
  | some r =>
    obtain ⟨queued, kind⟩ := closing.takePending pending
    exact ⟨queued, strays_of_queued (List.mem_append_left [_] kind)⟩

/-- What is read passes as many stray backslashes as it is. -/
theorem Queued.read (h : m.Queued) : m.read.2.Queued ∧
    Passes .code m.cursor.rest (strays m.read.1.toList) m.read.2.cursor.rest ∧
    ∀ t ∈ m.read.1, t.kind = .mark .endOfInput → m.read.2.cursor.rest = [] := by
  cases pending : m.takePending with
  | some r =>
    obtain ⟨queued, kind⟩ := h.takePending pending
    rw [read_of_some pending, cursor_of_takePending pending]
    refine ⟨queued, ?_, fun t mem ends => ?_⟩
    · have none : strays [r.1] = 0 := strays_of_queued (List.mem_append_left [_] kind)
      exact none ▸ .refl _
    · rw [← Option.some.inj mem] at ends
      exact absurd (ends ▸ kind) (by decide)
  | none =>
    have passes := (skips_afterGap (m.brackets != 0) m.cursor.rest).passes
    rw [read_of_none pending, rest_stepHere, stepHere_eq, rest_pastGap]
    cases left : afterGap (m.brackets != 0) false m.cursor.rest with
    | nil =>
      rw [left] at passes
      have finished : m.pastGap.Queued := h
      refine ⟨finished.finish.1, ?_, fun _ _ _ => rfl⟩
      exact finished.finish.2 ▸ passes
    | cons c rest =>
      rw [left] at passes
      obtain rfl | here := atLexeme_of_afterGap left
      · have passes := passes.trans (.newline rest)
        rw [Ahead.ofList, meet]
        split
        · exact ⟨h, passes, fun t mem ends => by cases mem; cases ends⟩
        · exact ⟨h, passes, fun t mem => by cases mem⟩
      · have passes := passes.trans here.passes
        obtain ⟨span, spans⟩ := Lexeme.exists_span c rest
        rw [Ahead.ofList, meet]
        · refine ⟨fun t mem => h t ?_, ?_, fun t mem ends => ?_⟩
          · rwa [note_pending] at mem
          · have count : 0 + (if (Lexeme.ofCons c rest).kind = strayBackslash then 1 else 0) =
                strays [m.pastGap.tokenHere (Lexeme.ofCons c rest).kind
                  (Lexeme.ofCons c rest).text] := by
              simp [strays, List.countP_cons, tokenHere]
            exact count ▸ passes
          · cases mem
            have no_layout := spans.no_layout
            rw [show (Lexeme.ofCons c rest).kind = _ from ends] at no_layout
            cases no_layout
        · exact here.no_end

/-- A step passes as many stray backslashes as it reads. -/
theorem Queued.step {r : Option Token} (h : l.Queued) (step : l.step = (r, m)) : m.Queued ∧
    Passes .code l.cursor.rest (strays r.toList) m.cursor.rest ∧
    ∀ t ∈ r, t.kind = .mark .endOfInput → m.cursor.rest = [] := by
  obtain ⟨measured, passes⟩ := h.measured
  obtain ⟨queued, passes', ended⟩ := measured.read
  rw [step_eq_read] at step
  rw [step] at queued passes' ended
  exact ⟨queued, Nat.zero_add (strays r.toList) ▸ passes.trans passes', ended⟩

/-- The tokens have as many stray backslashes as the text. -/
theorem Yields.strays_eq (h : l.Yields ts) (queued : l.Queued) :
    strays ts = (signs .code l.cursor.rest).count .stray := by
  induction h with
  | silent step _ ih =>
    obtain ⟨queued, ⟨passed, eq, count⟩, -⟩ := queued.step step
    rw [ih queued, eq, List.count_append, count]
    exact (Nat.zero_add _).symm
  | @token _ _ t ts step _ _ ih =>
    obtain ⟨queued, ⟨passed, eq, count⟩, -⟩ := queued.step step
    rw [eq, List.count_append, count, ← ih queued]
    exact (List.countP_append : strays ([t] ++ ts) = _)
  | last step ends =>
    obtain ⟨-, ⟨passed, eq, count⟩, ended⟩ := queued.step step
    rw [ended _ rfl ends] at eq
    rw [eq, List.count_append, count]
    rfl

end Lexer

theorem signs_cons
    (no_continuation : ∀ next, region = .code → c = '\\' → rest = '\n' :: next → False)
    (no_escape : ∀ quote d next, region = .string quote → c = '\\' → rest = d :: next → False) :
    signs region (c :: rest) =
      if c = '\n' then .lineEnd :: signs .code rest
      else if c = '\\' ∧ region = .code then .stray :: signs .code rest
      else signs (region.behind c) rest := by
  rw [signs]
  · exact no_continuation
  · exact no_escape

/-- What a sign is with the other line ends: a backslash that continued a line is stray. -/
def Sign.withReturns : Sign → List Sign
  | continuation => [stray, lineEnd]
  | s => [s]

theorem signs_crlf (region : Region) (cs : List Char) (inline : .inString ∉ signs region cs) :
    signs region (crlf cs) = (signs region cs).flatMap Sign.withReturns := by
  have carriage : ∀ (region : Region) rest,
      signs region ('\r' :: '\n' :: rest) = .lineEnd :: signs .code rest := by
    intro region rest
    cases region <;> simp [Region.behind]
  -- no backslash comes before a line feed, and none is the last of a string
  have apart : ∀ (region : Region) (c : Char) (rest : List Char),
      (∀ quote d next, region = .string quote → c = '\\' → rest = d :: next → False) →
      signs region (c :: crlf rest) =
        if c = '\n' then .lineEnd :: signs .code (crlf rest)
        else if c = '\\' ∧ region = .code then .stray :: signs .code (crlf rest)
        else signs (region.behind c) (crlf rest) := by
    intro region c rest no_escape
    refine signs_cons (fun next _ _ eq => head?_crlf rest (by rw [eq]; rfl)) ?_
    intro quote d next string slash eq
    cases rest with
    | nil => cases eq
    | cons d rest => exact no_escape quote d rest string slash rfl
  fun_induction signs region cs with
  | case1 region => exact signs.eq_1 region
  | case2 rest ih =>
    have step : crlf ('\\' :: '\n' :: rest) = '\\' :: '\r' :: '\n' :: crlf rest := rfl
    have stray : signs .code ('\\' :: '\r' :: '\n' :: crlf rest) =
        .stray :: .lineEnd :: signs .code (crlf rest) := by
      simp [Region.behind]
    rw [List.mem_cons, not_or] at inline
    rw [step, stray, ih inline.2]
    rfl
  | case3 => exact absurd List.mem_cons_self inline
  | case4 quote c rest feed ih =>
    rw [crlf_cons (by decide), crlf_cons feed, signs, if_neg feed, ih inline]
  | case5 region rest _ _ ih =>
    rw [List.mem_cons, not_or] at inline
    rw [crlf_newline, carriage, ih inline.2]
    rfl
  | case6 region c rest _ no_escape feed slash ih =>
    rw [List.mem_cons, not_or] at inline
    rw [crlf_cons feed, apart region c rest no_escape, if_neg feed, if_pos slash, ih inline.2]
    rfl
  | case7 region c rest _ no_escape feed slash ih =>
    rw [crlf_cons feed, apart region c rest no_escape, if_neg feed, if_neg slash, ih inline]

theorem count_withReturns (ss : List Sign) :
    (ss.flatMap Sign.withReturns).count .stray = ss.count .stray + ss.count .continuation := by
  induction ss with
  | nil => rfl
  | cons s ss ih =>
    rw [List.flatMap_cons, List.count_append, ih]
    cases s <;> simp [Sign.withReturns, Nat.add_assoc, Nat.add_comm, Nat.add_left_comm]

/-! ## Sources -/

/-- A string literal of the source goes on in the next line. -/
def SpansLines (source : String) : Prop := .inString ∈ signs .code source.toList

/-- A line of the source is continued by a backslash outside of strings and comments. -/
def Continues (source : String) : Prop := .continuation ∈ signs .code source.toList

instance (source : String) : Decidable (SpansLines source) := inferInstanceAs (Decidable (_ ∈ _))

instance (source : String) : Decidable (Continues source) := inferInstanceAs (Decidable (_ ∈ _))

theorem strays_tokenize (source : String) :
    Lexer.strays (tokenize source) = (signs .code source.toList).count .stray :=
  (Lexer.yields_tokenize source).strays_eq (List.forall_mem_nil _)

/-- **Both ways to end a line have the same tokens, unless a backslash continues one.** In a source
in which no string spans lines, a carriage return before each line feed leaves the kinds of the
tokens as they are, exactly if no line is continued. -/
theorem kinds_withReturns_iff {source : String} (inline : ¬SpansLines source) :
    (tokenize (withReturns source)).map Token.kind = (tokenize source).map Token.kind ↔
      ¬Continues source := by
  have text : (withReturns source).toList = crlf source.toList := String.toList_ofList
  refine ⟨fun same continues => ?_, fun whole => ?_⟩
  · -- each continuation makes a stray backslash more
    have more := strays_tokenize (withReturns source)
    rw [text, signs_crlf .code _ inline, count_withReturns, ← strays_tokenize] at more
    have equal : Lexer.strays (tokenize (withReturns source)) = Lexer.strays (tokenize source) := by
      have count := congrArg (List.count strayBackslash) same
      simp only [List.count, List.countP_map] at count
      exact count
    have some : 0 < (signs .code source.toList).count .continuation :=
      List.count_pos_iff.2 continues
    omega
  · have meets : Meets source.toList (withReturns source).toList := by
      rw [text]
      exact .whole _
    exact (Lexer.map_tokenize (fun _ _ => id) keeps_together ⟨meets, whole, inline⟩).symm

/-- Blocks, comments, a string with escapes, one that does not end, and brackets over two lines. -/
def manyLines : String :=
  "if a: # a \\\n    b = [\"x\\\"y\\n\",\n  'z']\n\n\t# note\n  c(d) \\ e\nf = \"open\n"

theorem manyLines_kinds_withReturns : ¬SpansLines manyLines ∧ ¬Continues manyLines ∧
    (tokenize (withReturns manyLines)).map Token.kind = (tokenize manyLines).map Token.kind := by
  have inline : ¬SpansLines manyLines := by decide
  have whole : ¬Continues manyLines := by decide
  exact ⟨inline, whole, (kinds_withReturns_iff inline).2 whole⟩

/-- `a = b +` on one line and `c` on the next. -/
def continued : String := "a = b + \\\nc"

/-- **A continued line ends with the other line ends.** The source has no carriage return and no
string; with line feeds it is one line, and with a carriage return before the line feed it is two,
the first one with a fault. -/
theorem exists_continuation_lost :
    '\r' ∉ continued.toList ∧ ¬SpansLines continued ∧
      (tokenize continued).map Token.kind =
        [.name "a", .mark .assign, .name "b", .mark .plus, .name "c", .mark .newline,
          .mark .endOfInput] ∧
      (tokenize (withReturns continued)).map Token.kind =
        [.name "a", .mark .assign, .name "b", .mark .plus, strayBackslash, .mark .newline,
          .name "c", .mark .newline, .mark .endOfInput] := by
  decide

end SheetScript.Token
