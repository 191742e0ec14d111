import Scriptlet.Proofs.Node.Fits
import Scriptlet.Token.Stream

/-!
# What scanning gives

Every token of a source text keeps the promise of its kind: a name is a name, a keyword a keyword,
and a char holds one character. What stops the scanning is a problem at a place or the limit on
digits.
-/

namespace Scriptlet

/-- A fault that reading a source text can end in. -/
def Fault.OfReading (f : Fault) : Prop :=
  f.kind = .reading ∨ f.kind = .digits ∨ f.kind = .overflow

/-- There is one fault of its kind. -/
theorem Fault.eq_overflow_of_kind {f : Fault} (h : f.kind = .overflow) : f = .overflow := by
  cases f <;> first | rfl | cases h

/-- A fault that scanning a source text can end in. -/
def Fault.OfScanning (f : Fault) : Prop := f.kind = .reading ∨ f.kind = .digits

theorem Fault.OfScanning.ofReading {f : Fault} (h : f.OfScanning) : f.OfReading :=
  h.imp_right Or.inl

/-- Scanning is not nested. -/
theorem Fault.OfScanning.ne_overflow {f : Fault} (h : f.OfScanning) : f ≠ .overflow := by
  rintro rfl
  rcases h with h | h <;> cases h

/-- The token keeps the promise of its kind. -/
def Token.Sound (t : Token) : Prop :=
  match t.kind with
  | .name => Token.isName t.text = true
  | .keyword => t.text ∈ Token.keywords
  | .char => ∃ c, t.text = String.ofList [c]
  | _ => True

/-- A keyword has the shape of a word. -/
theorem Token.isWord_of_mem_keywords {text : String} (h : text ∈ Token.keywords) :
    Token.isWord text = true := by
  have all : ∀ word ∈ Token.keywords, Token.isWord word = true := by decide
  exact all text h

/-- A name or keyword has the shape of a word. -/
theorem Token.Sound.isWord {t : Token} (h : t.Sound) (hk : t.kind = .name ∨ t.kind = .keyword) :
    Token.isWord t.text = true := by
  unfold Token.Sound at h
  rcases hk with hk | hk
  · rw [hk] at h
    exact Token.isWord_of_isName h
  · rw [hk] at h
    exact Token.isWord_of_mem_keywords h

/-! ## Lexemes -/

namespace Lexeme

/-- What a lexeme that was read looks like, where its token promises something. -/
def Sound : Lexeme → Prop
  | word text => Token.isWord (String.ofList text) = true
  | char content => (∃ c, content = ['\\', c]) ∨ ∃ c, c ≠ '\\' ∧ content = [c]
  | _ => True

theorem word?_sound {cs rest : List Char} {l : Lexeme} (h : word? cs = some (l, rest)) :
    l.Sound := by
  unfold word? at h
  split at h
  · next c tail =>
    split at h
    · next hc =>
      simp only [Option.some.injEq, Prod.mk.injEq] at h
      obtain ⟨rfl, rfl⟩ := h
      simp only [Sound, Token.isWord, String.toList_ofList, hc, Bool.true_and]
      exact List.all_takeWhile
    · simp at h
  · simp at h

theorem char?_sound {cs rest : List Char} {l : Lexeme} (h : char? cs = some (l, rest)) :
    l.Sound := by
  unfold char? at h
  split at h
  · split at h
    · next inside after hi =>
      simp only [Option.some.injEq, Prod.mk.injEq] at h
      obtain ⟨rfl, rfl⟩ := h
      unfold quotedItem? at hi
      split at hi
      · next c _ =>
        simp only [Option.some.injEq, Prod.mk.injEq] at hi
        exact Or.inl ⟨c, hi.1.symm⟩
      · simp at hi
      · next c _ h1 h2 =>
        split at hi
        · simp at hi
        · simp only [Option.some.injEq, Prod.mk.injEq] at hi
          refine Or.inr ⟨c, ?_, hi.1.symm⟩
          rintro rfl
          exact h1 '\'' after rfl hi.2
      · simp at hi
    · simp at h
  · simp at h

/-- A lexeme that was read is sound: only names, keywords and chars promise anything. -/
theorem read?_sound {cs rest : List Char} {l : Lexeme} (h : read? cs = some (l, rest)) :
    l.Sound := by
  obtain ⟨recognise, known, h⟩ := List.exists_of_findSome?_eq_some h
  simp only [recognisers, List.mem_cons, List.not_mem_nil, or_false] at known
  rcases known with rfl | rfl | rfl | rfl | rfl | rfl | rfl | rfl | rfl
  · unfold newline? at h
    split at h <;> cases h
    trivial
  · grind [blanks?, Sound]
  · unfold comment? at h
    split at h
    · cases h
      trivial
    · split at h <;> cases h <;> trivial
    · cases h
  · grind [number?, Sound]
  · unfold string? at h
    split at h
    · obtain ⟨⟨inside, after⟩, -, he⟩ := Option.map_eq_some_iff.mp h
      cases he
      trivial
    · cases h
  · exact char?_sound h
  · exact word?_sound h
  · obtain ⟨sign, -, he⟩ := Option.map_eq_some_iff.mp h
    cases he
    trivial
  · unfold punct? at h
    split at h
    · split at h <;> cases h
      trivial
    · cases h

end Lexeme

/-! ## Tokens -/

namespace Token

/-- The one character that the inside of a char stands for. -/
theorem unescape_char {content : List Char} {p : Position} {text : String}
    (h : (Lexeme.char content).Sound) (hu : unescape content p = .ok text) :
    ∃ c, text = String.ofList [c] := by
  rcases h with ⟨c, rfl⟩ | ⟨c, hc, rfl⟩
  · unfold unescape at hu
    cases hm : Text.Escape.meaning? c with
    | none =>
      rw [Text.Escape.decode, hm] at hu
      simp at hu
    | some m =>
      rw [Text.Escape.decode, hm] at hu
      simp only [Text.Escape.decode, Except.map, Except.ok.injEq] at hu
      exact ⟨m, hu.symm⟩
  · unfold unescape at hu
    rw [Text.Escape.decode_cons_of_ne hc] at hu
    simp only [Text.Escape.decode, Except.map, Except.ok.injEq] at hu
    exact ⟨c, hu.symm⟩

theorem unescape_ofScanning {content : List Char} {p : Position} {f : Fault}
    (h : unescape content p = .error f) : f.OfScanning := by
  unfold unescape at h
  split at h
  · simp at h
  · simp only [Except.error.injEq] at h
    exact Or.inl (h ▸ rfl)

/-- The token of a sound lexeme is sound. -/
theorem ofLexeme_sound {p : Position} {l : Lexeme} {t : Token} (h : l.Sound)
    (ht : ofLexeme p l = .ok (some t)) : t.Sound := by
  cases l with
  | char content =>
    simp only [ofLexeme] at ht
    cases hu : unescape content p with
    | error f =>
      rw [hu] at ht
      cases ht
    | ok text =>
      rw [hu] at ht
      simp only [Except.map, Except.ok.injEq, Option.some.injEq] at ht
      subst ht
      exact unescape_char h hu
  | word text =>
    simp only [ofLexeme, Except.ok.injEq, Option.some.injEq] at ht
    subst ht
    unfold Sound
    by_cases hk : keywords.contains (String.ofList text) = true
    · simp only [hk, if_true]
      exact List.contains_iff_mem.mp hk
    · simp only [Bool.not_eq_true] at hk
      simp only [hk, isName, Bool.not_false, Bool.and_true]
      exact h
  | hex mark digits =>
    simp only [ofLexeme] at ht
    split at ht <;> cases ht
    trivial
  | string content =>
    simp only [ofLexeme] at ht
    cases hu : unescape content p with
    | error f =>
      rw [hu] at ht
      cases ht
    | ok text =>
      rw [hu] at ht
      cases ht
      trivial
  | newline | blanks row | lineComment line | blockComment body | openComment => cases ht
  | integer digits | float whole fraction exponent | op text | punct c =>
    cases ht
    trivial

theorem ofLexeme_ofScanning {p : Position} {l : Lexeme} {f : Fault}
    (h : ofLexeme p l = .error f) : f.OfScanning := by
  cases l with
  | openComment =>
    simp only [ofLexeme, Except.error.injEq] at h
    exact Or.inl (h ▸ rfl)
  | hex mark digits =>
    simp only [ofLexeme] at h
    split at h
    · simp at h
    · simp only [Except.error.injEq] at h
      exact Or.inr (h ▸ rfl)
  | string content | char content =>
    simp only [ofLexeme] at h
    cases hu : unescape content p with
    | ok text =>
      rw [hu] at h
      cases h
    | error g =>
      rw [hu] at h
      cases h
      exact unescape_ofScanning hu
  | _ => simp [ofLexeme] at h

/-- Scanning gives sound tokens, and a fault of scanning if it stops early. -/
theorem scanFrom_sound (cursor : Cursor) (cs : List Char) (found : List Token)
    (h : ∀ t ∈ found, t.Sound) :
    (∀ t ∈ (scanFrom cursor cs found).1, t.Sound) ∧
      ∀ f ∈ (scanFrom cursor cs found).2, f.OfScanning := by
  fun_induction scanFrom cursor cs found with
  | case1 cursor found hr => exact ⟨by simpa using h, by simp⟩
  | case2 cursor found next rest hr =>
    refine ⟨by simpa using h, ?_⟩
    intro f hf
    simp only [Option.mem_def, Option.some.injEq] at hf
    exact Or.inl (hf ▸ rfl)
  | case3 cursor cs found lexeme rest hr fault ho =>
    refine ⟨by simpa using h, ?_⟩
    intro f hf
    simp only [Option.mem_def, Option.some.injEq] at hf
    exact hf ▸ ofLexeme_ofScanning ho
  | case4 cursor cs found lexeme rest hr ho ih => exact ih h
  | case5 cursor cs found lexeme rest hr token ho ih =>
    refine ih ?_
    intro t ht
    rcases List.mem_cons.mp ht with rfl | ht
    · exact ofLexeme_sound (Lexeme.read?_sound hr) ho
    · exact h t ht

end Token

/-! ## Streams -/

/-- The tokens to come are sound, and what stopped the scanning is a fault of reading. -/
structure Stream.Sound (s : Stream) : Prop where
  tokens : ∀ t ∈ s.pending, t.Sound
  failure : ∀ f ∈ s.failure, f.OfReading

/-- The fault behind the tokens of a source text is one of scanning. -/
theorem Stream.failure_ofSource (source : String) :
    ∀ f ∈ (Stream.ofSource source).failure, f.OfScanning :=
  (Token.scanFrom_sound _ _ [] (by simp)).2

/-- The stream of a source text is sound. -/
theorem Stream.sound_ofSource (source : String) : (Stream.ofSource source).Sound where
  tokens := (Token.scanFrom_sound _ _ [] (by simp)).1
  failure f hf := (Stream.failure_ofSource source f hf).ofReading

end Scriptlet
