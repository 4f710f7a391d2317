import QuantumWiring.Json.Reader
import QuantumWiring.Proofs.Json.Numeral
import Mathlib.Data.List.Forall2

/-!
# What values are written as

A value is written as a row of tokens, and the blanks between them are not seen by a reader.  So the
text of a value with one item a line and the one without blanks are cut into the same tokens
(`tokens_pretty`, `tokens_compact`), whatever numbers and strings it holds.
-/

namespace QuantumWiring.Json

mutual

/-- The tokens that a value is written as. -/
def Value.tokens : Value → List Token
  | .null => [.null]
  | .bool b => [.bool b]
  | .number n => [n.token]
  | .string s => [.string (some s)]
  | .array items => .openArray :: List.intercalate [.comma] (itemTokens items) ++ [.closeArray]
  | .object fields => .openObject :: List.intercalate [.comma] (fieldTokens fields) ++ [.closeObject]

def itemTokens : List Value → List (List Token)
  | [] => []
  | v :: rest => v.tokens :: itemTokens rest

def fieldTokens : List (String × Value) → List (List Token)
  | [] => []
  | (name, v) :: rest => (.string (some name) :: .colon :: v.tokens) :: fieldTokens rest

end

/-! ## Cutting a text -/

theorem tokensAfter_length (cs rest : List Char) :
    tokensAfter cs.length (cs ++ rest) = tokensAfter 0 rest := by
  induction cs with
  | nil => rfl
  | cons c cs ih => exact ih

theorem tokensAfter_blanks {cs : List Char} (h : ∀ c ∈ cs, isSpace c) (rest : List Char) :
    tokensAfter 0 (cs ++ rest) = tokensAfter 0 rest := by
  induction cs with
  | nil => rfl
  | cons c cs ih =>
    obtain ⟨hc, hcs⟩ := List.forall_mem_cons.1 h
    rw [List.cons_append, tokensAfter, if_pos hc, ih hcs]

/-- A token is cut off with all of its characters. -/
theorem tokensAfter_token {c : Char} {cs rest : List Char} {t : Token} (hc : isSpace c = false)
    (h : token? (c :: cs ++ rest) = some (t, (c :: cs).length)) :
    tokensAfter 0 (c :: cs ++ rest) = t :: tokensAfter 0 rest := by
  rw [List.cons_append] at h ⊢
  rw [tokensAfter, if_neg (by simp [hc]), h]
  simp only [List.length_cons, Nat.add_sub_cancel]
  rw [tokensAfter_length]

/-! ## Strings -/

theorem hexValue?_hexDigit : ∀ n < 16, hexValue? (hexDigit n) = some n := by decide

theorem hexUnit?_control {n : Nat} (h : n < 0x20) :
    hexUnit? '0' '0' (hexDigit (n / 16)) (hexDigit (n % 16)) = some n := by
  have hzero : hexValue? '0' = some 0 := by decide
  have hhigh := hexValue?_hexDigit (n / 16) (by omega)
  have hlow := hexValue?_hexDigit (n % 16) (by omega)
  simp only [hexUnit?, hzero, hhigh, hlow, Option.some.injEq]
  omega

/-- An escaped character is read back, whatever follows. -/
theorem stringBody?_escapedChar (c : Char) (rest : List Char) :
    stringBody? (escapedChar c ++ rest) =
      (stringBody? rest).map (·.push c (escapedChar c).length) := by
  unfold escapedChar
  split
  case h_8 =>
    split
    · next hcontrol =>
      have hhigh : isHighHalf c.toNat = false := by simp [isHighHalf]; omega
      have hlow : isLowHalf c.toNat = false := by simp [isLowHalf]; omega
      simp only [List.cons_append, List.nil_append]
      rw [stringBody?]
      simp only [hexUnit?_control hcontrol, hhigh, hlow, Char.ofNat_toNat]
      rfl
    · next hquote hbackslash _ _ _ _ _ hcontrol =>
      rw [List.singleton_append, stringBody?, if_neg hcontrol]
      · rfl
      · exact hquote
      · rintro a b d e rest rfl
        exact absurd rfl hbackslash
      · intro a rest h
        exact absurd h hbackslash
  all_goals
    rw [List.cons_append, List.cons_append, List.nil_append, stringBody?]
    · rfl
    · rintro a b c d rest heq
      cases heq

theorem stringBody?_escaped (cs rest : List Char) :
    stringBody? (cs.flatMap escapedChar ++ '"' :: rest) =
      some (some cs, (cs.flatMap escapedChar).length + 1) := by
  induction cs with
  | nil => rfl
  | cons c cs ih =>
    rw [List.flatMap_cons, List.append_assoc, stringBody?_escapedChar, ih]
    simp [StringBody.push]
    omega

theorem tokensAfter_string (s : String) (rest : List Char) :
    tokensAfter 0 ((stringText s).toList ++ rest) = .string (some s) :: tokensAfter 0 rest := by
  have htext : (stringText s).toList = '"' :: (s.toList.flatMap escapedChar ++ ['"']) := by
    simp [stringText]
  rw [htext]
  refine tokensAfter_token rfl ?_
  have hbody := stringBody?_escaped s.toList rest
  simp [token?, hbody]

/-! ## Scanning -/

/-- The text is cut into the tokens wherever something follows that does not go on with a numeral. -/
def Scans (s : String) (ts : List Token) : Prop :=
  ∀ rest, Delimits rest → tokensAfter 0 (s.toList ++ rest) = ts ++ tokensAfter 0 rest

theorem Scans.tokens_eq {s : String} {ts : List Token} (h : Scans s ts) : tokens s = ts := by
  have htokens := h [] delimits_nil
  rwa [List.append_nil, show tokensAfter 0 [] = [] from rfl, List.append_nil] at htokens

theorem scans_string (s : String) : Scans (stringText s) [.string (some s)] :=
  fun rest _ => tokensAfter_string s rest

theorem scans_null : Scans "null" [.null] := fun _ _ => rfl

theorem scans_bool (b : Bool) : Scans (if b then "true" else "false") [.bool b] := by
  cases b <;> exact fun _ _ => rfl

theorem scans_number (n : Number) : Scans n.text [n.token] := by
  rcases n.text_eq with hnull | ⟨l, hl, htext⟩
  · have htoken : n.token = .null := by
      rw [Number.token, hnull]
      rfl
    rw [hnull, htoken]
    exact scans_null
  · intro rest hrest
    rw [Number.token_eq hl htext, htext]
    have hnumeral := numeral?_chars hl hrest
    obtain ⟨c, cs, hcs, hc⟩ := hl.exists_cons
    rw [hcs] at hnumeral ⊢
    exact tokensAfter_token hc (token?_of_numeral hnumeral)

/-- The text holds blanks only. -/
def Blank (s : String) : Prop := ∀ c ∈ s.toList, isSpace c

theorem Blank.delimits {s : String} (h : Blank s) {rest : List Char} (hrest : Delimits rest) :
    Delimits (s.toList ++ rest) := by
  intro c hc
  rw [List.head?_append] at hc
  cases hs : s.toList.head? with
  | none => exact hrest c (by simpa [hs] using hc)
  | some d =>
    obtain rfl : d = c := by simpa [hs] using hc
    exact .inl (h d (List.mem_of_mem_head? hs))

theorem Scans.indent {s blanks : String} {ts : List Token} (h : Scans s ts) (hblanks : Blank blanks) :
    Scans (blanks ++ s) ts := by
  intro rest hrest
  rw [String.toList_append, List.append_assoc, tokensAfter_blanks hblanks]
  exact h rest hrest

theorem Scans.append_comma {s s' gap : String} {ts ts' : List Token} (hgap : Blank gap)
    (h : Scans s ts) (h' : Scans s' ts') :
    Scans (s ++ ("," ++ gap) ++ s') (ts ++ [.comma] ++ ts') := by
  intro rest hrest
  have hcomma (cs : List Char) : tokensAfter 0 (",".toList ++ cs) = .comma :: tokensAfter 0 cs := rfl
  have hdelimits (cs : List Char) : Delimits (",".toList ++ cs) := delimits_cons (by decide) cs
  simp only [String.toList_append, List.append_assoc]
  rw [h _ (hdelimits _), hcomma, tokensAfter_blanks hgap, h' rest hrest]
  rfl

/-- The lines of a group with commas and blanks between them. -/
theorem scans_lines {gap blanks : String} (hgap : Blank gap) (hblanks : Blank blanks)
    {lines : List String} {tss : List (List Token)} (h : List.Forall₂ Scans lines tss) :
    Scans (("," ++ gap).intercalate (lines.map (blanks ++ ·))) (List.intercalate [.comma] tss) := by
  induction h with
  | nil => exact fun _ _ => rfl
  | cons hline hlines ih =>
    have hfirst := hline.indent hblanks
    cases hlines with
    | nil =>
      rw [List.map_singleton, String.intercalate_singleton, List.intercalate_singleton]
      exact hfirst
    | cons _ _ =>
      rw [List.map_cons, List.map_cons, String.intercalate_cons_cons, List.intercalate_cons_cons]
      exact hfirst.append_comma hgap ih

/-- Two texts that are cut off as tokens of their own; no numeral goes on with the second. -/
structure Brackets (opening closing : String) (t t' : Token) : Prop where
  opens : ∀ rest, tokensAfter 0 (opening.toList ++ rest) = t :: tokensAfter 0 rest
  closes : ∀ rest, tokensAfter 0 (closing.toList ++ rest) = t' :: tokensAfter 0 rest
  delimits : ∀ rest, Delimits (closing.toList ++ rest)

theorem brackets_array : Brackets "[" "]" .openArray .closeArray :=
  ⟨fun _ => rfl, fun _ => rfl, delimits_cons (by decide)⟩

theorem brackets_object : Brackets "\x7b" "\x7d" .openObject .closeObject :=
  ⟨fun _ => rfl, fun _ => rfl, delimits_cons (by decide)⟩

/-- What stands between brackets, with blanks around it. -/
theorem Brackets.scans {opening closing : String} {t t' : Token} (h : Brackets opening closing t t')
    {before after body : String} {ts : List Token} (hbefore : Blank before) (hafter : Blank after)
    (hbody : Scans body ts) :
    Scans (opening ++ before ++ body ++ after ++ closing) (t :: ts ++ [t']) := by
  intro rest _
  have hclosing : Delimits (after.toList ++ (closing.toList ++ rest)) :=
    hafter.delimits (h.delimits rest)
  simp only [String.toList_append, List.append_assoc]
  rw [h.opens, tokensAfter_blanks hbefore, hbody _ hclosing, tokensAfter_blanks hafter, h.closes]
  simp

theorem Scans.field {blanks s : String} {ts : List Token} (hblanks : Blank blanks) (h : Scans s ts)
    (name : String) :
    Scans (stringText name ++ (":" ++ blanks) ++ s) (.string (some name) :: .colon :: ts) := by
  intro rest hrest
  have hcolon (cs : List Char) : tokensAfter 0 (":".toList ++ cs) = .colon :: tokensAfter 0 cs := rfl
  simp only [String.toList_append, List.append_assoc]
  rw [tokensAfter_string, hcolon, tokensAfter_blanks hblanks, h rest hrest]
  rfl

/-! ## Values -/

theorem blank_empty : Blank "" := by
  simp [Blank, isSpace]

theorem blank_space : Blank " " := by
  simp [Blank, isSpace]

theorem blank_newline : Blank "\n" := by
  simp [Blank, isSpace]

theorem blank_indentation (depth : Nat) : Blank (indentation depth) := by
  intro c hc
  rw [indentation, String.toList_ofList] at hc
  rw [List.eq_of_mem_replicate hc]
  rfl

theorem Blank.append {s s' : String} (h : Blank s) (h' : Blank s') : Blank (s ++ s') := by
  intro c hc
  rw [String.toList_append, List.mem_append] at hc
  exact hc.elim (h c) (h' c)

section

variable {opening closing : String} {t t' : Token} {lines : List String} {tss : List (List Token)}

theorem Brackets.scans_compact (h : Brackets opening closing t t')
    (hlines : List.Forall₂ Scans lines tss) :
    Scans (opening ++ ",".intercalate lines ++ closing) (t :: List.intercalate [.comma] tss ++ [t']) := by
  have hbody := scans_lines blank_empty blank_empty hlines
  have hgroup := h.scans blank_empty blank_empty hbody
  simpa only [String.append_empty, String.empty_append, List.map_id'] using hgroup

theorem Brackets.scans_bracketed (h : Brackets opening closing t t') (depth : Nat)
    (hlines : List.Forall₂ Scans lines tss) :
    Scans (bracketed opening closing depth lines) (t :: List.intercalate [.comma] tss ++ [t']) := by
  unfold bracketed
  split
  · next hnil =>
    subst hnil
    have hgroup := h.scans_compact hlines
    rwa [String.intercalate_nil, String.append_empty] at hgroup
  · have hgap : ",\n" = "," ++ "\n" := by decide
    have hbody := scans_lines blank_newline (blank_indentation (depth + 1)) hlines
    have hgroup := h.scans blank_newline (blank_newline.append (blank_indentation depth)) hbody
    rw [hgap]
    rwa [← String.append_assoc] at hgroup

end

mutual

theorem scans_compact : (v : Value) → Scans v.compact v.tokens
  | .null => scans_null
  | .bool b => scans_bool b
  | .number n => scans_number n
  | .string s => scans_string s
  | .array items => by
    rw [Value.compact, Value.tokens]
    exact brackets_array.scans_compact (scans_compactItems items)
  | .object fields => by
    rw [Value.compact, Value.tokens]
    exact brackets_object.scans_compact (scans_compactFields fields)

theorem scans_compactItems :
    (items : List Value) → List.Forall₂ Scans (compactItems items) (itemTokens items)
  | [] => .nil
  | v :: rest => .cons (scans_compact v) (scans_compactItems rest)

theorem scans_compactFields :
    (fields : List (String × Value)) →
      List.Forall₂ Scans (compactFields fields) (fieldTokens fields)
  | [] => .nil
  | (name, v) :: rest => by
    have hfield := (scans_compact v).field blank_empty name
    rw [String.append_empty] at hfield
    rw [compactFields, fieldTokens]
    exact .cons hfield (scans_compactFields rest)

end

mutual

theorem scans_prettyAt (depth : Nat) : (v : Value) → Scans (v.prettyAt depth) v.tokens
  | .null => scans_null
  | .bool b => scans_bool b
  | .number n => scans_number n
  | .string s => scans_string s
  | .array items => by
    rw [Value.prettyAt, Value.tokens]
    exact brackets_array.scans_bracketed depth (scans_prettyItems (depth + 1) items)
  | .object fields => by
    rw [Value.prettyAt, Value.tokens]
    exact brackets_object.scans_bracketed depth (scans_prettyFields (depth + 1) fields)

theorem scans_prettyItems (depth : Nat) :
    (items : List Value) → List.Forall₂ Scans (prettyItems depth items) (itemTokens items)
  | [] => .nil
  | v :: rest => .cons (scans_prettyAt depth v) (scans_prettyItems depth rest)

theorem scans_prettyFields (depth : Nat) :
    (fields : List (String × Value)) →
      List.Forall₂ Scans (prettyFields depth fields) (fieldTokens fields)
  | [] => .nil
  | (name, v) :: rest => by
    have hfield := (scans_prettyAt depth v).field blank_space name
    rw [prettyFields, fieldTokens]
    exact .cons hfield (scans_prettyFields depth rest)

end

theorem tokens_pretty (v : Value) : tokens v.pretty = v.tokens := (scans_prettyAt 0 v).tokens_eq

theorem tokens_compact (v : Value) : tokens v.compact = v.tokens := (scans_compact v).tokens_eq

/-- How a value is laid out makes no difference to a reader. -/
theorem read_pretty_eq_read_compact (v : Value) : read v.pretty = read v.compact := by
  unfold read
  rw [tokens_pretty, tokens_compact]

end QuantumWiring.Json
