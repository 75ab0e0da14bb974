import Dossier.Json.Reader
import Dossier.Proofs.Json.Members
import Dossier.Proofs.Json.Parts
import Dossier.Proofs.Number.Text

/-!
What the text of a value tells. Where a value ends can be told from its text alone, whatever follows. Main
statement: objects with the same text have, under each name, values with the same text.
-/

namespace Dossier.Json

open Reader (readString readEscape readHex)

/-! ### Strings -/

theorem readHex_control {n : Nat} (h : n < 0x20) (rest : List Char) :
    readHex ('0' :: '0' :: hexDigit (n / 16) :: hexDigit n :: rest) = some (n, rest) := by
  have hdigits : ∀ m < 0x20, Text.hexValue (hexDigit (m / 16)) = some (m / 16) ∧
      Text.hexValue (hexDigit m) = some (m % 16) := by decide
  have hzero : Text.hexValue '0' = some 0 := by decide
  simp only [readHex, hdigits n h, hzero, Option.bind_eq_bind, Option.bind_some, Option.pure_def]
  congr 2
  omega

theorem readEscape_control {c : Char} (h : c.toNat < 0x20) (rest : List Char) :
    readEscape ('0' :: '0' :: hexDigit (c.toNat / 16) :: hexDigit c.toNat :: rest) = some (c, rest) := by
  have hhigh : ¬(0xD800 ≤ c.toNat && c.toNat < 0xDC00) = true := by
    simp only [Bool.and_eq_true, decide_eq_true_eq]
    omega
  have hlow : ¬(0xDC00 ≤ c.toNat && c.toNat < 0xE000) = true := by
    simp only [Bool.and_eq_true, decide_eq_true_eq]
    omega
  simp only [readEscape, readHex_control h, Option.bind_eq_bind, Option.bind_some, if_neg hhigh, if_neg hlow,
    Char.ofNat_toNat, Option.pure_def]

/-- A character reads back from its escape. -/
theorem readString_escape (fuel : Nat) (read : List Char) (c : Char) (rest : List Char) :
    readString (fuel + 1) read (escape c ++ rest) = readString fuel (c :: read) rest := by
  by_cases hquote : c = '"'
  · subst hquote
    rfl
  by_cases hbackslash : c = '\\'
  · subst hbackslash
    rfl
  by_cases hbackspace : c = '\x08'
  · subst hbackspace
    rfl
  by_cases hfeed : c = '\x0c'
  · subst hfeed
    rfl
  by_cases hline : c = '\n'
  · subst hline
    rfl
  by_cases hreturn : c = '\r'
  · subst hreturn
    rfl
  by_cases htab : c = '\t'
  · subst htab
    rfl
  rw [escape, if_neg hquote, if_neg hbackslash, if_neg hbackspace, if_neg hfeed, if_neg hline, if_neg hreturn,
    if_neg htab]
  split
  · rename_i hcontrol
    simp [readString, readEscape_control hcontrol]
  · rename_i hplain
    simp [readString, hbackslash, hplain]

theorem readString_escaped (s : List Char) (fuel : Nat) (read rest : List Char) :
    readString (s.length + fuel + 1) read (s.flatMap escape ++ '"' :: rest) =
      some (String.ofList (read.reverse ++ s), rest) := by
  induction s generalizing read with
  | nil => simp [readString]
  | cons c s ih =>
      have hfuel : (c :: s).length + fuel + 1 = (s.length + fuel + 1) + 1 := by
        rw [List.length_cons]
        omega
      rw [hfuel, List.flatMap_cons, List.append_assoc, readString_escape, ih, List.reverse_cons, List.append_assoc,
        List.singleton_append]

theorem toList_quoted (s : String) : (quoted s).toList = '"' :: (s.toList.flatMap escape ++ ['"']) := by
  rw [quoted, String.toList_ofList, List.cons_append]

/-- Where a quoted string ends can be told from the string alone. -/
theorem quoted_append_inj {s t : String} {rest rest' : List Char}
    (h : (quoted s).toList ++ rest = (quoted t).toList ++ rest') : s = t ∧ rest = rest' := by
  rw [toList_quoted, toList_quoted, List.cons_append, List.cons_append, List.append_assoc, List.append_assoc,
    List.singleton_append, List.singleton_append] at h
  have hs := readString_escaped s.toList t.toList.length [] rest
  have ht := readString_escaped t.toList s.toList.length [] rest'
  rw [← (List.cons.inj h).2, Nat.add_comm t.toList.length, hs] at ht
  simpa using ht

/-! ### Texts with commas between them -/

/-- What may follow a value: nothing, or a mark that no value begins or goes on with. -/
def Ends (rest : List Char) : Prop := ∀ c ∈ rest.head?, c = ',' ∨ c = ']' ∨ c = '\x7d'

theorem Ends.cons {c : Char} (h : c = ',' ∨ c = ']' ∨ c = '\x7d') (rest : List Char) : Ends (c :: rest) := by
  intro d hd
  cases hd
  exact h

section Separated

variable {α : Type} (chars : α → List Char)

/-- Where the text ends can be told from the text alone. -/
def SelfEnding (a : α) : Prop := ∀ b {rest rest' : List Char}, Ends rest → Ends rest' →
  chars a ++ rest = chars b ++ rest' → chars a = chars b ∧ rest = rest'

/-- What follows the first of some texts with commas between them, up to a closing mark. -/
def continued (close : Char) (rest : List Char) : List (List Char) → List Char
  | [] => close :: rest
  | text :: texts => ',' :: ([','].intercalate (text :: texts) ++ close :: rest)

theorem intercalate_cons_append (close : Char) (rest text : List Char) (texts : List (List Char)) :
    [','].intercalate (text :: texts) ++ close :: rest = text ++ continued close rest texts := by
  cases texts with
  | nil => rw [List.intercalate_singleton, continued]
  | cons next texts =>
      rw [List.intercalate_cons_cons, continued, List.append_assoc, List.append_assoc, List.singleton_append]

variable {chars} {close : Char} (hclose : close = ']' ∨ close = '\x7d')

include hclose

theorem ends_continued (rest : List Char) (texts : List (List Char)) : Ends (continued close rest texts) := by
  cases texts with
  | nil => exact .cons (.inr hclose) rest
  | cons text texts => exact .cons (.inl rfl) _

/-- Texts with commas between them, up to a closing mark that none of them begins with. -/
theorem intercalate_append_inj {as bs : List α} (has : ∀ a ∈ as, SelfEnding chars a)
    (hfirst : ∀ a, ∃ c cs, chars a = c :: cs ∧ c ≠ close) {rest rest' : List Char}
    (h : [','].intercalate (as.map chars) ++ close :: rest = [','].intercalate (bs.map chars) ++ close :: rest') :
    as.map chars = bs.map chars ∧ rest = rest' := by
  have hcomma : close ≠ ',' := by
    rcases hclose with rfl | rfl <;> decide
  induction as generalizing bs with
  | nil =>
      cases bs with
      | nil => exact ⟨rfl, (List.cons.inj h).2⟩
      | cons b bs =>
          obtain ⟨c, cs, hb, hc⟩ := hfirst b
          rw [List.map_cons, intercalate_cons_append, hb] at h
          exact absurd (List.cons.inj h).1.symm hc
  | cons a as ih =>
      rw [List.map_cons, intercalate_cons_append] at h
      cases bs with
      | nil =>
          obtain ⟨c, cs, ha, hc⟩ := hfirst a
          rw [ha] at h
          exact absurd (List.cons.inj h).1 hc
      | cons b bs =>
          rw [List.map_cons, intercalate_cons_append] at h
          obtain ⟨hhead, htail⟩ := has a List.mem_cons_self b (ends_continued hclose rest _)
            (ends_continued hclose rest' _) h
          have hrest : as.map chars = bs.map chars ∧ rest = rest' := by
            cases as with
            | nil =>
                cases bs with
                | nil => exact ⟨rfl, (List.cons.inj htail).2⟩
                | cons b bs => exact absurd (List.cons.inj htail).1 hcomma
            | cons a as =>
                cases bs with
                | nil => exact absurd (List.cons.inj htail).1.symm hcomma
                | cons b bs => exact ih (fun c hc => has c (List.mem_cons_of_mem _ hc)) (List.cons.inj htail).2
          exact ⟨by rw [List.map_cons, List.map_cons, hhead, hrest.1], hrest.2⟩

end Separated

/-! ### Values -/

theorem textItems_eq (items : List Json) : textItems items = items.map text := by
  induction items with
  | nil => rfl
  | cons item rest ih => rw [textItems, ih, List.map_cons]

def memberText (member : String × Json) : String := quoted member.1 ++ ":" ++ text member.2

theorem textMembers_eq (members : Members) : textMembers members = members.map memberText := by
  induction members with
  | nil => rfl
  | cons member rest ih =>
      obtain ⟨name, value⟩ := member
      rw [textMembers, ih, List.map_cons]
      rfl

/-- The characters of a value, and of a member. -/
def chars (value : Json) : List Char := value.text.toList

def memberChars (member : String × Json) : List Char := (memberText member).toList

theorem chars_array (items : List Json) :
    chars (.array items) = '[' :: ([','].intercalate (items.map chars) ++ [']']) := by
  rw [chars, text, String.toList_append, String.toList_append, textItems_eq, String.toList_intercalate, List.map_map]
  rfl

theorem chars_object (members : Members) :
    chars (.object members) = '\x7b' :: ([','].intercalate (members.map memberChars) ++ ['\x7d']) := by
  rw [chars, text, String.toList_append, String.toList_append, textMembers_eq, String.toList_intercalate,
    List.map_map]
  rfl

theorem memberChars_eq (member : String × Json) :
    memberChars member = (quoted member.1).toList ++ ':' :: chars member.2 := by
  rw [memberChars, memberText, String.toList_append, String.toList_append, List.append_assoc]
  rfl

/-- What the first character of a value tells about it. -/
inductive Shape where
  | null
  | bool (value : Bool)
  | number
  | string
  | array
  | object
  deriving DecidableEq

def shape : Json → Shape
  | .null => .null
  | .bool b => .bool b
  | .number _ => .number
  | .string _ => .string
  | .array _ => .array
  | .object _ => .object

def shapeOf (c : Char) : Option Shape :=
  if Number.isTextChar c then some .number
  else [('n', Shape.null), ('t', .bool true), ('f', .bool false), ('"', .string), ('[', .array),
    ('\x7b', .object)].lookup c

theorem exists_first (value : Json) : ∃ c cs, chars value = c :: cs ∧ shapeOf c = some value.shape := by
  cases value with
  | null => exact ⟨'n', _, rfl, by decide⟩
  | bool b =>
      cases b with
      | true => exact ⟨'t', _, rfl, by decide⟩
      | false => exact ⟨'f', _, rfl, by decide⟩
  | number n =>
      obtain ⟨c, cs, hn⟩ := List.exists_cons_of_ne_nil n.toList_text_ne_nil
      have hc : Number.isTextChar c = true := Number.isTextChar_of_mem_text (n := n) (hn ▸ List.mem_cons_self)
      exact ⟨c, cs, hn, if_pos hc⟩
  | string s =>
      have hc : shapeOf '"' = some .string := by decide
      exact ⟨_, _, toList_quoted s, hc⟩
  | array items =>
      have hc : shapeOf '[' = some .array := by decide
      exact ⟨_, _, chars_array items, hc⟩
  | object members =>
      have hc : shapeOf '\x7b' = some .object := by decide
      exact ⟨_, _, chars_object members, hc⟩

theorem exists_first_ne {close : Char} (hclose : shapeOf close = none) (value : Json) :
    ∃ c cs, chars value = c :: cs ∧ c ≠ close := by
  obtain ⟨c, cs, hchars, hc⟩ := exists_first value
  refine ⟨c, cs, hchars, ?_⟩
  rintro rfl
  cases hclose.symm.trans hc

theorem shape_eq_of_append {a b : Json} {rest rest' : List Char} (h : chars a ++ rest = chars b ++ rest') :
    a.shape = b.shape := by
  obtain ⟨c, cs, ha, hc⟩ := exists_first a
  obtain ⟨d, ds, hb, hd⟩ := exists_first b
  rw [ha, hb] at h
  rw [(List.cons.inj h).1] at hc
  exact Option.some.inj (hc.symm.trans hd)

/-- Characters of one sort, up to something of another. -/
theorem takeWhile_append_end {p : Char → Bool} {cs rest : List Char} (hcs : ∀ c ∈ cs, p c = true)
    (hrest : ∀ c ∈ rest.head?, p c = false) : (cs ++ rest).takeWhile p = cs := by
  rw [List.takeWhile_append_of_pos hcs]
  cases rest with
  | nil => rw [List.takeWhile_nil, List.append_nil]
  | cons c rest => rw [List.takeWhile_cons_of_neg (by simp [hrest c rfl]), List.append_nil]

theorem Ends.not_isTextChar {rest : List Char} (h : Ends rest) : ∀ c ∈ rest.head?, Number.isTextChar c = false := by
  intro c hc
  rcases h c hc with rfl | rfl | rfl <;> decide

theorem selfEnding_number (n : Number) : SelfEnding chars (.number n) := by
  intro b rest rest' hrest hrest' h
  have hshape := shape_eq_of_append h
  cases b with
  | number m =>
      have hn := takeWhile_append_end (fun c => Number.isTextChar_of_mem_text (n := n)) hrest.not_isTextChar
      have hm := takeWhile_append_end (fun c => Number.isTextChar_of_mem_text (n := m)) hrest'.not_isTextChar
      have heq : n.text.toList = m.text.toList :=
        calc n.text.toList
          _ = (n.text.toList ++ rest).takeWhile Number.isTextChar := hn.symm
          _ = (m.text.toList ++ rest').takeWhile Number.isTextChar := congrArg _ h
          _ = m.text.toList := hm
      have htail : n.text.toList ++ rest = n.text.toList ++ rest' := h.trans (congrArg (· ++ rest') heq.symm)
      exact ⟨heq, List.append_cancel_left htail⟩
  | _ => cases hshape

theorem selfEnding_string (s : String) : SelfEnding chars (.string s) := by
  intro b rest rest' _ _ h
  have hshape := shape_eq_of_append h
  cases b with
  | string t =>
      obtain ⟨rfl, hrest⟩ := quoted_append_inj h
      exact ⟨rfl, hrest⟩
  | _ => cases hshape

theorem selfEnding_member {member : String × Json} (h : SelfEnding chars member.2) :
    SelfEnding memberChars member := by
  intro other rest rest' hrest hrest' heq
  rw [memberChars_eq, memberChars_eq, List.append_assoc, List.append_assoc, List.cons_append,
    List.cons_append] at heq
  obtain ⟨hname, hvalue⟩ := quoted_append_inj heq
  obtain ⟨hvalue, hrest⟩ := h other.2 hrest hrest' (List.cons.inj hvalue).2
  exact ⟨by rw [memberChars_eq, memberChars_eq, hname, hvalue], hrest⟩

theorem map_chars_of_array {items others : List Json} (hitems : ∀ item ∈ items, SelfEnding chars item)
    {rest rest' : List Char} (h : chars (.array items) ++ rest = chars (.array others) ++ rest') :
    items.map chars = others.map chars ∧ rest = rest' := by
  rw [chars_array, chars_array, List.cons_append, List.cons_append, List.append_assoc, List.append_assoc] at h
  exact intercalate_append_inj (.inl rfl) hitems (exists_first_ne (by decide)) (List.cons.inj h).2

theorem map_memberChars_of_object {members others : Members}
    (hmembers : ∀ member ∈ members, SelfEnding memberChars member) {rest rest' : List Char}
    (h : chars (.object members) ++ rest = chars (.object others) ++ rest') :
    members.map memberChars = others.map memberChars ∧ rest = rest' := by
  have hfirst : ∀ member, ∃ c cs, memberChars member = c :: cs ∧ c ≠ '\x7d' := fun member =>
    ⟨'"', _, (memberChars_eq member).trans (by rw [toList_quoted, List.cons_append]), by decide⟩
  rw [chars_object, chars_object, List.cons_append, List.cons_append, List.append_assoc, List.append_assoc] at h
  exact intercalate_append_inj (.inr rfl) hmembers hfirst (List.cons.inj h).2

/-- Where a value ends can be told from its text alone. -/
theorem selfEnding (value : Json) : SelfEnding chars value := by
  induction value using induct with
  | scalar value hscalar =>
      cases value with
      | null =>
          intro b rest rest' _ _ h
          have hshape := shape_eq_of_append h
          cases b with
          | null => exact ⟨rfl, List.append_cancel_left h⟩
          | _ => cases hshape
      | bool x =>
          intro b rest rest' _ _ h
          have hshape := shape_eq_of_append h
          cases b with
          | bool y =>
              cases hshape
              exact ⟨rfl, List.append_cancel_left h⟩
          | _ => cases hshape
      | number n => exact selfEnding_number n
      | string s => exact selfEnding_string s
      | array items => cases hscalar
      | object members => cases hscalar
  | array items ih =>
      intro b rest rest' _ _ h
      have hshape := shape_eq_of_append h
      cases b with
      | array others =>
          obtain ⟨hmap, hrest⟩ := map_chars_of_array ih h
          exact ⟨by rw [chars_array, chars_array, hmap], hrest⟩
      | _ => cases hshape
  | object members ih =>
      intro b rest rest' _ _ h
      have hshape := shape_eq_of_append h
      cases b with
      | object others =>
          obtain ⟨hmap, hrest⟩ := map_memberChars_of_object (fun m hm => selfEnding_member (ih m hm)) h
          exact ⟨by rw [chars_object, chars_object, hmap], hrest⟩
      | _ => cases hshape

/-- Members with the same characters have the same name, and values with the same text. -/
theorem memberChars_inj {member other : String × Json} (h : memberChars member = memberChars other) :
    member.1 = other.1 ∧ text member.2 = text other.2 := by
  rw [memberChars_eq, memberChars_eq] at h
  obtain ⟨hname, hvalue⟩ := quoted_append_inj h
  exact ⟨hname, String.toList_inj.mp (List.cons.inj hvalue).2⟩

/-- Objects with the same text have, under each name, values with the same text. -/
theorem text_get?_of_text_object {members others : Members} (h : text (.object members) = text (.object others))
    (name : String) : (members.get? name).map text = (others.get? name).map text := by
  have hchars : chars (.object members) ++ [] = chars (.object others) ++ [] := by rw [chars, chars, h]
  have hmap := (map_memberChars_of_object (fun m _ => selfEnding_member (selfEnding m.2)) hchars).1
  clear h hchars
  induction members generalizing others with
  | nil =>
      rw [List.map_eq_nil_iff.mp hmap.symm]
  | cons member rest ih =>
      cases others with
      | nil => cases hmap
      | cons other rest' =>
          obtain ⟨hmember, hrest⟩ := List.cons.inj hmap
          obtain ⟨hname, htext⟩ := memberChars_inj hmember
          rw [Members.get?, Members.get?, hname]
          split
          · exact congrArg some htext
          · exact ih hrest

end Dossier.Json
