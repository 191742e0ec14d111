import Scriptlet.Proofs.Token.Layout
import Scriptlet.Proofs.Token.Place

/-!
# Texts joined by a newline

No lexeme goes on over the end of its line, except a comment between marks and a literal that has a
backslash before the newline, and neither is complete before its end. So what was read to the end of
a text is read in the same way if another line follows (`Lexeme.read?_joined`), and scanning two
texts with a newline between them finds the tokens of the one and then those of the other
(`Token.scan_joined`), the latter further down.
-/

namespace Scriptlet

namespace Lexeme

open Text Text.DecimalDigit Number.Integer

variable {cs rest : List Char} {l : Lexeme}

/-- A lexeme and the text behind it, where another line follows. -/
def joined (more : List Char) (result : Lexeme × List Char) : Lexeme × List Char :=
  (result.1, result.2 ++ '\n' :: more)

/-! ## Rows of characters -/

/-- A row of characters ends with the line. -/
theorem takeWhile_newline {p : Char → Bool} (hp : p '\n' = false) (cs more : List Char) :
    (cs ++ '\n' :: more).takeWhile p = cs.takeWhile p := by
  induction cs with
  | nil => simp [hp]
  | cons c cs ih =>
    rw [List.cons_append, List.takeWhile_cons, List.takeWhile_cons, ih]

theorem dropWhile_newline {p : Char → Bool} (hp : p '\n' = false) (cs more : List Char) :
    (cs ++ '\n' :: more).dropWhile p = cs.dropWhile p ++ '\n' :: more := by
  induction cs with
  | nil => simp [hp]
  | cons c cs ih =>
    rw [List.cons_append, List.dropWhile_cons, List.dropWhile_cons, ih]
    split <;> rfl

/-- A text without newlines stands at the beginning of the line or not at all. -/
theorem isPrefixOf_newline {sign : List Char} (h : '\n' ∉ sign) (cs more : List Char) :
    sign.isPrefixOf (cs ++ '\n' :: more) = sign.isPrefixOf cs := by
  induction sign generalizing cs with
  | nil => simp
  | cons d sign ih =>
    rw [List.mem_cons, not_or] at h
    cases cs with
    | nil => simp [List.isPrefixOf, Ne.symm h.1]
    | cons c cs => simp [List.isPrefixOf, ih h.2]

/-! ## One class of lexemes after the other -/

theorem newline?_joined (hne : cs ≠ []) (more : List Char) :
    newline? (cs ++ '\n' :: more) = (newline? cs).map (joined more) := by
  cases cs with
  | nil => exact absurd rfl hne
  | cons c cs =>
    by_cases hc : c = '\n'
    · subst hc
      rfl
    · rw [List.cons_append, newline?_cons hc, newline?_cons hc]
      rfl

theorem blanks?_joined (more : List Char) :
    blanks? (cs ++ '\n' :: more) = (blanks? cs).map (joined more) := by
  have hnewline : Blank.isSeparator '\n' = false := by decide
  simp only [blanks?, takeWhile_newline hnewline, dropWhile_newline hnewline]
  split <;> rfl

theorem closeComment?_joined {inside after : List Char}
    (h : closeComment? cs = some (inside, after)) (more : List Char) :
    closeComment? (cs ++ more) = some (inside, after ++ more) := by
  fun_induction closeComment? cs generalizing inside after with
  | case1 => cases h
  | case2 rest =>
    cases h
    rfl
  | case3 c rest hopen ih =>
    obtain ⟨⟨inner, behind⟩, hinner, he⟩ := Option.map_eq_some_iff.mp h
    cases he
    have hstill : ∀ tail, c = '*' → rest ++ more = '/' :: tail → False := by
      intro tail hc heq
      cases rest with
      | nil => cases hinner
      | cons d rest =>
        cases heq
        exact hopen rest hc rfl
    rw [List.cons_append, closeComment?.eq_3 _ _ hstill, ih hinner]
    rfl

theorem comment?_joined (hne : cs ≠ []) (h : ∀ rest, comment? cs ≠ some (openComment, rest))
    (more : List Char) : comment? (cs ++ '\n' :: more) = (comment? cs).map (joined more) := by
  have single : ∀ d tail, d ≠ '/' → d ≠ '*' → comment? ('/' :: d :: tail) = none := by
    intro d tail hslash hstar
    unfold comment?
    split
    · next heq => exact absurd (by cases heq; rfl) hslash
    · next heq => exact absurd (by cases heq; rfl) hstar
    · rfl
  cases cs with
  | nil => exact absurd rfl hne
  | cons c cs =>
    by_cases hc : c = '/'
    · subst hc
      cases cs with
      | nil => rfl
      | cons d cs =>
        by_cases hslash : d = '/'
        · subst hslash
          simp only [List.cons_append, comment?, takeWhile_newline (p := (· != '\n')) rfl,
            dropWhile_newline (p := (· != '\n')) rfl]
          rfl
        by_cases hstar : d = '*'
        · subst hstar
          cases hclose : closeComment? cs with
          | none => exact absurd (by rw [comment?, hclose]) (h cs)
          | some result =>
            obtain ⟨inside, after⟩ := result
            simp only [List.cons_append, comment?, hclose, closeComment?_joined hclose]
            rfl
        · rw [List.cons_append, List.cons_append, single d _ hslash hstar, single d _ hslash hstar]
          rfl
    · rw [List.cons_append, comment?_cons hc, comment?_cons hc]
      rfl

theorem sign_joined (cs more : List Char) :
    sign (cs ++ '\n' :: more) = ((sign cs).1, (sign cs).2 ++ '\n' :: more) := by
  cases cs with
  | nil => rfl
  | cons c cs =>
    by_cases hplus : c = '+'
    · subst hplus
      rfl
    by_cases hminus : c = '-'
    · subst hminus
      rfl
    have unsigned : ∀ tail, sign (c :: tail) = ([], c :: tail) := by
      intro tail
      unfold sign
      split
      · next heq => exact absurd (by cases heq; rfl) hplus
      · next heq => exact absurd (by cases heq; rfl) hminus
      · rfl
    rw [List.cons_append, unsigned, unsigned]
    rfl

theorem exponent_joined (cs more : List Char) :
    exponent (cs ++ '\n' :: more) = ((exponent cs).1, (exponent cs).2 ++ '\n' :: more) := by
  have hnewline : isDigit '\n' = false := by decide
  cases cs with
  | nil =>
    rw [List.nil_append, exponent]
    exact if_neg (by simp)
  | cons mark cs =>
    simp only [List.cons_append, exponent, sign_joined, takeWhile_newline hnewline,
      dropWhile_newline hnewline]
    split <;> rfl

theorem number?_joined (more : List Char) :
    number? (cs ++ '\n' :: more) = (number? cs).map (joined more) := by
  have hdigit : isDigit '\n' = false := by decide
  have hhex : isHexDigit '\n' = false := by decide
  simp only [number?, takeWhile_newline hdigit, dropWhile_newline hdigit]
  split
  · rfl
  · cases cs.dropWhile isDigit with
    | nil =>
      rw [List.nil_append]
      simp [joined]
    | cons mark after =>
      by_cases hpoint : mark = '.'
      · subst hpoint
        simp only [List.cons_append, takeWhile_newline hdigit, dropWhile_newline hdigit,
          exponent_joined]
        split <;> rfl
      · simp only [List.cons_append, takeWhile_newline hhex, dropWhile_newline hhex]
        split <;> rfl

theorem string?_joined (h : string? cs = some (l, rest)) (more : List Char) :
    string? (cs ++ '\n' :: more) = some (joined more (l, rest)) := by
  unfold string? at h
  split at h
  · next tail =>
    obtain ⟨⟨inside, after⟩, hinside, he⟩ := Option.map_eq_some_iff.mp h
    cases he
    have hstill := (stringContent?_quotable hinside).stringContent? (rest ++ '\n' :: more)
    rw [← stringContent?_append hinside, List.cons_append, List.append_assoc, List.cons_append,
      string?, hstill]
    rfl
  · cases h

theorem quotedItem?_joined {mark : Char} {inside after : List Char}
    (h : quotedItem? mark cs = some (inside, after)) (more : List Char) :
    quotedItem? mark (cs ++ more) = some (inside, after ++ more) := by
  have htext := quotedItem?_append h
  rcases quotedItem?_cases h with ⟨c, rfl⟩ | ⟨c, rfl, slash, closing, newline⟩
  · rw [← htext]
    rfl
  · rw [← htext, List.append_assoc]
    exact Literal.quotedItem? (.raw slash closing newline .nil) (after ++ more)

theorem char?_joined (h : char? cs = some (l, rest)) (more : List Char) :
    char? (cs ++ '\n' :: more) = some (joined more (l, rest)) := by
  unfold char? at h
  split at h
  · split at h
    · next hitem =>
      cases h
      rw [List.cons_append, char?, quotedItem?_joined hitem]
      rfl
    · cases h
  · cases h

theorem word?_joined (more : List Char) :
    word? (cs ++ '\n' :: more) = (word? cs).map (joined more) := by
  have hnewline : isNamePart '\n' = false := by decide
  cases cs with
  | nil => rfl
  | cons c cs =>
    simp only [List.cons_append, word?, takeWhile_newline hnewline, dropWhile_newline hnewline]
    split <;> rfl

theorem op?_joined (more : List Char) :
    op? (cs ++ '\n' :: more) = (op? cs).map (joined more) := by
  have hfind : operators.find? (·.isPrefixOf (cs ++ '\n' :: more)) =
      operators.find? (·.isPrefixOf cs) := by
    simp (disch := decide) only [operators, List.find?_cons, List.find?_nil, isPrefixOf_newline]
  rw [op?, op?, hfind]
  cases hsign : operators.find? (·.isPrefixOf cs) with
  | none => rfl
  | some sign =>
    have hprefix := List.find?_some hsign
    obtain ⟨tail, rfl⟩ := List.isPrefixOf_iff_prefix.mp hprefix
    simp [joined]

theorem punct?_joined (hne : cs ≠ []) (more : List Char) :
    punct? (cs ++ '\n' :: more) = (punct? cs).map (joined more) := by
  cases cs with
  | nil => exact absurd rfl hne
  | cons c cs =>
    rw [List.cons_append, punct?, punct?]
    split <;> rfl

/-! ## The first lexeme -/

/-- Only strings begin with a quotation mark. -/
theorem read?_quote (cs : List Char) : read? ('"' :: cs) = string? ('"' :: cs) := by
  have hop : op? ('"' :: cs) = none := rfl
  cases h : string? ('"' :: cs) <;>
    simp [read?, recognisers, newline?_cons, blanks?_cons, comment?_cons, number?_cons, char?_cons,
      word?, punct?, hop, h, Blank.isSeparator, show isDigit '"' = false by decide,
      show isNameStart '"' = false by decide, punctuation]

/-- Only chars begin with an apostrophe. -/
theorem read?_apostrophe (cs : List Char) : read? ('\'' :: cs) = char? ('\'' :: cs) := by
  have hop : op? ('\'' :: cs) = none := rfl
  cases h : char? ('\'' :: cs) <;>
    simp [read?, recognisers, newline?_cons, blanks?_cons, comment?_cons, number?_cons,
      string?_cons, word?, punct?, hop, h, Blank.isSeparator,
      show isDigit '\'' = false by decide, show isNameStart '\'' = false by decide, punctuation]

/-- The first class to succeed decides. -/
theorem findSome?_joined {more : List Char} :
    ∀ {classes : List (List Char → Option (Lexeme × List Char))},
      (∀ recognise ∈ classes, recognise (cs ++ '\n' :: more) = (recognise cs).map (joined more)) →
      classes.findSome? (fun recognise => recognise (cs ++ '\n' :: more)) =
        (classes.findSome? fun recognise => recognise cs).map (joined more)
  | [], _ => rfl
  | recognise :: classes, h => by
    have ih := findSome?_joined fun other known => h other (List.mem_cons_of_mem recognise known)
    rw [List.findSome?_cons, List.findSome?_cons, h recognise List.mem_cons_self, ih]
    cases recognise cs <;> rfl

/-- A lexeme that is complete is read in the same way if another line follows. -/
theorem read?_joined (h : read? cs = some (l, rest)) (ho : l ≠ openComment) (more : List Char) :
    read? (cs ++ '\n' :: more) = some (l, rest ++ '\n' :: more) := by
  have hopen : ∀ rest, comment? cs ≠ some (openComment, rest) := by
    intro rest hcomment
    rw [read?_of_comment? hcomment] at h
    cases h
    exact ho rfl
  cases cs with
  | nil => cases h
  | cons c cs =>
    have hne : c :: cs ≠ [] := List.cons_ne_nil c cs
    by_cases hquote : c = '"'
    · subst hquote
      rw [read?_quote] at h
      rw [List.cons_append, read?_quote]
      exact string?_joined h more
    by_cases hapostrophe : c = '\''
    · subst hapostrophe
      rw [read?_apostrophe] at h
      rw [List.cons_append, read?_apostrophe]
      exact char?_joined h more
    -- neither kind of literal begins here, and all other classes come to the same
    have hstring : string? (c :: cs ++ '\n' :: more) = (string? (c :: cs)).map (joined more) := by
      rw [List.cons_append, string?_cons hquote, string?_cons hquote]
      rfl
    have hchar : char? (c :: cs ++ '\n' :: more) = (char? (c :: cs)).map (joined more) := by
      rw [List.cons_append, char?_cons hapostrophe, char?_cons hapostrophe]
      rfl
    have hall : ∀ recognise ∈ recognisers,
        recognise (c :: cs ++ '\n' :: more) = (recognise (c :: cs)).map (joined more) := by
      intro recognise known
      simp only [recognisers, List.mem_cons, List.not_mem_nil, or_false] at known
      rcases known with rfl | rfl | rfl | rfl | rfl | rfl | rfl | rfl | rfl
      · exact newline?_joined hne more
      · exact blanks?_joined more
      · exact comment?_joined hne hopen more
      · exact number?_joined more
      · exact hstring
      · exact hchar
      · exact word?_joined more
      · exact op?_joined more
      · exact punct?_joined hne more
    have hmap : read? (c :: cs ++ '\n' :: more) = (read? (c :: cs)).map (joined more) :=
      findSome?_joined hall
    rw [hmap, h]
    rfl

end Lexeme

/-! ## Scanning -/

namespace Token

/-- A text that can be scanned to its end is scanned in the same way if another line follows. -/
theorem scanFrom_joined (more : List Char) (cursor : Cursor) (cs : List Char) (found : List Token)
    (h : (scanFrom cursor cs found).2 = none) :
    ∃ cursor', scanFrom cursor (cs ++ '\n' :: more) found =
      scanFrom cursor' more (scanFrom cursor cs found).1.reverse := by
  cases hr : Lexeme.read? cs with
  | none =>
    cases cs with
    | nil =>
      refine ⟨cursor.past .newline, ?_⟩
      rw [scanFrom_nil, List.reverse_reverse]
      exact scanFrom_lexeme Lexeme.read?_newline rfl found
    | cons c rest =>
      rw [scanFrom_unexpected hr] at h
      cases h
  | some result =>
    obtain ⟨l, rest⟩ := result
    cases ho : ofLexeme cursor.position l with
    | error f =>
      rw [scanFrom_refused hr ho] at h
      cases h
    | ok o =>
      have hcomplete : l ≠ .openComment := by
        rintro rfl
        cases ho
      rw [scanFrom_lexeme hr ho] at h ⊢
      rw [scanFrom_lexeme (Lexeme.read?_joined hr hcomplete more) ho]
      exact scanFrom_joined more _ rest _ h
termination_by cs.length
decreasing_by exact Lexeme.length_rest_lt hr

/-- What token comes of a lexeme does not depend on where it stands. -/
theorem ofLexeme_moved {p : Position} {l : Lexeme} {o : Option Token} (h : ofLexeme p l = .ok o)
    (q : Position) : ∃ o', ofLexeme q l = .ok o' ∧ o'.map unplaced = o.map unplaced := by
  cases l with
  | openComment => cases h
  | hex mark digits =>
    rw [ofLexeme] at h
    split at h
    · next text value =>
      cases h
      exact ⟨some ⟨.integer, text, q⟩, by rw [ofLexeme, value], rfl⟩
    · cases h
  | string content =>
    rw [ofLexeme, unescape] at h
    cases hd : Text.Escape.decode content with
    | error next =>
      rw [hd] at h
      cases h
    | ok cs =>
      rw [hd] at h
      cases h
      exact ⟨some ⟨.string, String.ofList cs, q⟩, by rw [ofLexeme, unescape, hd]; rfl, rfl⟩
  | char content =>
    rw [ofLexeme, unescape] at h
    cases hd : Text.Escape.decode content with
    | error next =>
      rw [hd] at h
      cases h
    | ok cs =>
      rw [hd] at h
      cases h
      exact ⟨some ⟨.char, String.ofList cs, q⟩, by rw [ofLexeme, unescape, hd]; rfl, rfl⟩
  | _ =>
    cases h
    exact ⟨_, rfl, rfl⟩

/-- The tokens of a text that can be scanned to its end do not depend on where it stands. -/
theorem scanFrom_moved (c d : Cursor) (cs : List Char) (h : (scanFrom c cs []).2 = none) :
    (scanFrom d cs []).2 = none ∧
      (scanFrom d cs []).1.map unplaced = (scanFrom c cs []).1.map unplaced := by
  cases hr : Lexeme.read? cs with
  | none =>
    cases cs with
    | nil => simp [scanFrom_nil]
    | cons next rest =>
      rw [scanFrom_unexpected hr] at h
      cases h
  | some result =>
    obtain ⟨l, rest⟩ := result
    cases ho : ofLexeme c.position l with
    | error f =>
      rw [scanFrom_refused hr ho] at h
      cases h
    | ok o =>
      obtain ⟨o', ho', hmoved⟩ := ofLexeme_moved ho d.position
      rw [scanFrom_lexeme hr ho, scanFrom_found] at h
      rw [scanFrom_lexeme hr ho, scanFrom_lexeme hr ho', scanFrom_found (d.past l),
        scanFrom_found (c.past l)]
      obtain ⟨hnone, htokens⟩ := scanFrom_moved (c.past l) (d.past l) rest h
      have hown : o'.toList.map unplaced = o.toList.map unplaced := by
        rw [← Option.toList_map, ← Option.toList_map, hmoved]
      refine ⟨hnone, ?_⟩
      simp only [List.append_nil, List.map_append, htokens, List.map_reverse, hown]
termination_by cs.length
decreasing_by exact Lexeme.length_rest_lt hr

/-- The tokens of two texts with a newline between them are those of the one and then those of the
other, which stand further down. -/
theorem scan_joined {source source' : String} (h : (scan source).2 = none)
    (h' : (scan source').2 = none) :
    ∃ moved, scan (source ++ "\n" ++ source') = ((scan source).1 ++ moved, none) ∧
      moved.map unplaced = (scan source').1.map unplaced := by
  obtain ⟨cursor, hjoined⟩ := scanFrom_joined source'.toList .start source.toList [] h
  obtain ⟨hnone, hmoved⟩ := scanFrom_moved .start cursor source'.toList h'
  refine ⟨(scanFrom cursor source'.toList []).1, ?_, hmoved⟩
  have htext : (source ++ "\n" ++ source').toList = source.toList ++ '\n' :: source'.toList := by
    simp
  rw [scan, htext, hjoined, scanFrom_found, List.reverse_reverse, hnone]
  rfl

end Token

end Scriptlet
