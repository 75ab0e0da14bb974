import Dossier.Proofs.Sql.Scan

/-!
Parentheses in SQL text. A text is read with the number of parentheses that are open; it is balanced if
each of its parentheses is closed behind it and none is closed that it did not open. Main statement: the
parenthesis that closes a balanced text is found without knowing the text, so a text in parentheses is cut
out of what stands behind it in one way.
-/

namespace Dossier.Sql

/-- As many parentheses are closed as are opened, and in no beginning of the text more of them. -/
structure Balanced (text : List Char) : Prop where
  closed : text.count ')' = text.count '('
  nested : ∀ start, start <+: text → start.count ')' ≤ start.count '('

/-- The number of open parentheses behind the character, if it closes none that is not open. -/
def nest (depth : Nat) (c : Char) : Option Nat :=
  if c = '(' then some (depth + 1) else if c = ')' then depth.casesOn none some else some depth

/-- The number of open parentheses behind the text. -/
def depthBehind (depth : Nat) (text : List Char) : Option Nat := text.foldlM nest depth

theorem depthBehind_nil (depth : Nat) : depthBehind depth [] = some depth := rfl

theorem depthBehind_cons (depth : Nat) (c : Char) (rest : List Char) :
    depthBehind depth (c :: rest) = (nest depth c).bind (depthBehind · rest) := rfl

theorem depthBehind_append (depth : Nat) (a b : List Char) :
    depthBehind depth (a ++ b) = (depthBehind depth a).bind (depthBehind · b) :=
  List.foldlM_append

theorem depthBehind_of_not_mem {text : List Char} (hopen : '(' ∉ text) (hclose : ')' ∉ text) (depth : Nat) :
    depthBehind depth text = some depth := by
  induction text with
  | nil => rfl
  | cons c rest ih =>
      rw [List.mem_cons, not_or] at hopen hclose
      have hc : nest depth c = some depth := by rw [nest, if_neg (Ne.symm hopen.1), if_neg (Ne.symm hclose.1)]
      rw [depthBehind_cons, hc, Option.bind_some, ih hopen.2 hclose.2]

/-- The depth behind a text is the number of its parentheses that are left open, provided that no beginning
of the text closes more than are open. -/
theorem depthBehind_eq_some_iff {text : List Char} {d e : Nat} :
    depthBehind d text = some e ↔
      d + text.count '(' = e + text.count ')' ∧
        ∀ start, start <+: text → start.count ')' ≤ d + start.count '(' := by
  induction text generalizing d with
  | nil => simp [depthBehind_nil]
  | cons c rest ih =>
      have hprefix : (∀ start, start <+: c :: rest → start.count ')' ≤ d + start.count '(') ↔
          ∀ start, start <+: rest → (c :: start).count ')' ≤ d + (c :: start).count '(' := by
        constructor
        · intro h start hstart
          exact h (c :: start) ((List.prefix_cons_inj c).mpr hstart)
        · intro h start hstart
          rcases List.prefix_cons_iff.mp hstart with rfl | ⟨tail, rfl, htail⟩
          · exact Nat.zero_le _
          · exact h tail htail
      rw [depthBehind_cons, hprefix, nest]
      by_cases hopen : c = '('
      · subst hopen
        rw [if_pos rfl, Option.bind_some, ih]
        simp only [List.count_cons_self, List.count_cons_of_ne (show '(' ≠ ')' by decide)]
        exact and_congr (by omega) (forall₂_congr fun start _ => by omega)
      · rw [if_neg hopen]
        by_cases hclose : c = ')'
        · subst hclose
          rw [if_pos rfl]
          simp only [List.count_cons_self, List.count_cons_of_ne (show ')' ≠ '(' by decide)]
          cases d with
          | zero =>
              refine ⟨fun h => ?_, fun h => ?_⟩
              · cases h
              · have hnil := h.2 [] List.nil_prefix
                simp at hnil
          | succ d =>
              change depthBehind d rest = some e ↔ _
              rw [ih]
              exact and_congr (by omega) (forall₂_congr fun start _ => by omega)
        · rw [if_neg hclose, Option.bind_some, ih]
          simp only [List.count_cons_of_ne hopen, List.count_cons_of_ne hclose]

/-- A balanced text leaves every depth as it is. -/
theorem Balanced.depthBehind_eq {text : List Char} (h : Balanced text) (depth : Nat) :
    depthBehind depth text = some depth :=
  depthBehind_eq_some_iff.mpr ⟨by rw [h.closed], fun start hstart => by
    have := h.nested start hstart
    omega⟩

theorem balanced_of_depthBehind {text : List Char} (h : depthBehind 0 text = some 0) : Balanced text := by
  obtain ⟨hcount, hstart⟩ := depthBehind_eq_some_iff.mp h
  exact ⟨by omega, fun start hprefix => by have := hstart start hprefix; omega⟩

theorem balanced_nil : Balanced [] := balanced_of_depthBehind rfl

theorem Balanced.append {a b : List Char} (ha : Balanced a) (hb : Balanced b) : Balanced (a ++ b) :=
  balanced_of_depthBehind (by rw [depthBehind_append, ha.depthBehind_eq, Option.bind_some, hb.depthBehind_eq])

/-- Text in parentheses, and what stands behind it. -/
def grouped (inner rest : List Char) : List Char := '(' :: (inner ++ ')' :: rest)

theorem Balanced.grouped {inner rest : List Char} (hinner : Balanced inner) (hrest : Balanced rest) :
    Balanced (grouped inner rest) := by
  apply balanced_of_depthBehind
  rw [Sql.grouped, depthBehind_cons]
  change depthBehind 1 _ = _
  rw [depthBehind_append, hinner.depthBehind_eq, Option.bind_some, depthBehind_cons]
  change depthBehind 0 rest = _
  exact hrest.depthBehind_eq 0

/-- Of two balanced texts before a closing parenthesis neither is longer: the longer one would hold a
parenthesis that it did not open. -/
theorem Balanced.eq_of_append_close {a b r s : List Char} (ha : Balanced a) (hb : Balanced b)
    (h : a ++ ')' :: r = b ++ ')' :: s) : a = b ∧ r = s := by
  have hshort : ∀ {c d m t u : List Char}, Balanced c → Balanced d → d = c ++ m →
      ')' :: t = m ++ ')' :: u → m = [] := by
    intro c d m t u hc hd hdm hm
    cases m with
    | nil => rfl
    | cons x m =>
        obtain rfl : ')' = x := (List.cons.inj hm).1
        have hdepth := hd.depthBehind_eq 0
        rw [hdm, depthBehind_append, hc.depthBehind_eq, Option.bind_some, depthBehind_cons] at hdepth
        cases hdepth
  rcases List.append_eq_append_iff.mp h with ⟨m, hbm, hm⟩ | ⟨m, ham, hm⟩
  · obtain rfl := hshort ha hb hbm hm
    rw [List.append_nil] at hbm
    exact ⟨hbm.symm, (List.cons.inj hm).2⟩
  · obtain rfl := hshort hb ha ham hm
    rw [List.append_nil] at ham
    exact ⟨ham, (List.cons.inj hm).2.symm⟩

/-- **The closing parenthesis is found.** A balanced text in parentheses, and what stands behind it, are
read off the whole. -/
theorem grouped_inj {a b r s : List Char} (ha : Balanced a) (hb : Balanced b)
    (h : grouped a r = grouped b s) : a = b ∧ r = s :=
  ha.eq_of_append_close hb (List.cons.inj h).2

/-! ### What a text begins with -/

/-- The text begins with a character that opens no parenthesis, or with a balanced text in parentheses
behind which `Behind` holds of the rest. -/
inductive Led (Behind : List Char → Prop) : List Char → Prop where
  | other {c : Char} (rest : List Char) (hc : c ≠ '(') : Led Behind (c :: rest)
  | group {inner rest : List Char} (hinner : Balanced inner) (hrest : Behind rest) :
      Led Behind (grouped inner rest)

theorem Led.mono {P Q : List Char → Prop} {text : List Char} (h : Led P text)
    (himp : ∀ rest, P rest → Q rest) : Led Q text := by
  cases h with
  | other rest hc => exact Led.other rest hc
  | group hinner hrest => exact Led.group hinner (himp _ hrest)

theorem Led.append {P Q : List Char → Prop} {a b : List Char} (h : Led P a)
    (himp : ∀ rest, P rest → Q (rest ++ b)) : Led Q (a ++ b) := by
  cases h with
  | other rest hc => exact Led.other (rest ++ b) hc
  | @group inner rest hinner hrest =>
      rw [grouped, List.cons_append, List.append_assoc, List.cons_append]
      exact Led.group hinner (himp rest hrest)

theorem Led.behind {P : List Char → Prop} {inner rest : List Char} (hinner : Balanced inner)
    (h : Led P (grouped inner rest)) : P rest := by
  generalize htext : grouped inner rest = text at h
  cases h with
  | other other hc => exact absurd (List.cons.inj htext).1.symm hc
  | group hinner' hrest =>
      obtain ⟨-, rfl⟩ := grouped_inj hinner hinner' htext
      exact hrest

/-! ### Joined texts -/

/-- Texts in parentheses with a separator between them. -/
def joined (separator : List Char) : List (List Char) → List Char
  | [] => []
  | [text] => grouped text []
  | text :: rest => grouped text (separator ++ joined separator rest)

theorem balanced_joined {separator : List Char} (hseparator : Balanced separator) {texts : List (List Char)}
    (h : ∀ text ∈ texts, Balanced text) : Balanced (joined separator texts) := by
  induction texts with
  | nil => exact balanced_nil
  | cons text rest ih =>
      have htext := h text List.mem_cons_self
      have hrest := ih fun other hother => h other (List.mem_cons_of_mem text hother)
      cases rest with
      | nil => exact htext.grouped balanced_nil
      | cons next rest => exact htext.grouped (hseparator.append hrest)

/-- **Joined texts are told apart.** Balanced texts are read off what they are joined to, and so is the
separator if there is one between them. -/
theorem joined_inj {v w : List Char} (hv : v ≠ []) (hw : w ≠ [])
    (hseparators : ∀ r s, v ++ r = w ++ s → v = w) {xs ys : List (List Char)}
    (hxs : ∀ x ∈ xs, Balanced x) (hys : ∀ y ∈ ys, Balanced y) (h : joined v xs = joined w ys) :
    xs = ys ∧ (2 ≤ xs.length → v = w) := by
  have hopen : ∀ {inner rest : List Char}, grouped inner rest ≠ [] := fun h => List.cons_ne_nil _ _ h
  have hlone : ∀ {a b : List Char}, a ≠ [] → [] ≠ a ++ b :=
    fun ha hnil => ha (List.append_eq_nil_iff.mp hnil.symm).1
  induction xs generalizing ys with
  | nil =>
      match ys with
      | [] => exact ⟨rfl, fun hlength => absurd hlength (by decide)⟩
      | [_] => exact absurd h.symm hopen
      | _ :: _ :: _ => exact absurd h.symm hopen
  | cons x xs ih =>
      have hx := hxs x List.mem_cons_self
      have hrest := fun ys hys => @ih ys (fun other hother => hxs other (List.mem_cons_of_mem x hother)) hys
      match xs, ys, hys with
      | [], [], _ => exact absurd h hopen
      | _ :: _, [], _ => exact absurd h hopen
      | [], [y], hys =>
          obtain ⟨rfl, -⟩ := grouped_inj hx (hys y List.mem_cons_self) h
          exact ⟨rfl, fun hlength => absurd hlength (Nat.not_succ_le_self 1)⟩
      | [], y :: _ :: _, hys =>
          exact absurd (grouped_inj hx (hys y List.mem_cons_self) h).2 (hlone hw)
      | _ :: _, [y], hys =>
          exact absurd (grouped_inj hx (hys y List.mem_cons_self) h).2.symm (hlone hv)
      | x' :: xs, y :: y' :: ys, hys =>
          obtain ⟨rfl, hjoined⟩ := grouped_inj hx (hys y List.mem_cons_self) h
          obtain rfl := hseparators _ _ hjoined
          have hys' : ∀ other ∈ y' :: ys, Balanced other :=
            fun other hother => hys other (List.mem_cons_of_mem x hother)
          obtain ⟨hsame, -⟩ := hrest (y' :: ys) hys' (List.append_cancel_left hjoined)
          exact ⟨by rw [hsame], fun _ => rfl⟩

/-- Joining writes each predicate that is not empty in parentheses. -/
theorem toList_format_join (predicates : List Predicate) (word : String) :
    (Predicate.join predicates word).format.toList =
      joined (" " ++ word ++ " ").toList
        ((predicates.filter (!·.isEmpty)).map fun p => p.format.toList) := by
  have hkept : ∀ kept : List Predicate,
      (String.intercalate (" " ++ word ++ " ") (kept.map Predicate.parenthesised)).toList =
        joined (" " ++ word ++ " ").toList (kept.map fun p => p.format.toList) := by
    intro kept
    induction kept with
    | nil => rfl
    | cons p rest ih =>
        have hgrouped : ∀ s : List Char, p.parenthesised.toList ++ s = grouped p.format.toList s := by
          intro s
          rw [Predicate.parenthesised, String.toList_append, String.toList_append, grouped]
          simp only [List.append_assoc]
          rfl
        cases rest with
        | nil =>
            rw [List.map_singleton, String.intercalate_singleton, List.map_singleton, joined, ← hgrouped,
              List.append_nil]
        | cons q rest =>
            rw [List.map_cons, List.map_cons] at ih
            rw [List.map_cons, List.map_cons, String.intercalate_cons_cons, String.toList_append,
              String.toList_append, ih, List.append_assoc, hgrouped]
            rfl
  rw [Predicate.join]
  split
  · rename_i hnil
    rw [hnil]
    rfl
  · exact hkept _

/-! ### Fragments -/

namespace Fragment

/-- The text of the fragment leads from one depth to another, whatever its values are numbered from. -/
def Leads (fragment : Fragment) (d e : Nat) : Prop :=
  ∀ next, depthBehind d (formatFrom next fragment).toList = some e

/-- The fragment leaves every depth as it is. -/
def Level (fragment : Fragment) : Prop := ∀ depth, fragment.Leads depth depth

theorem formatFrom_append (next : Nat) (a b : Fragment) :
    formatFrom next (a ++ b) = formatFrom next a ++ formatFrom (next + a.params.length) b := by
  induction a generalizing next with
  | nil => exact String.empty_append.symm
  | cons piece a ih =>
      cases piece with
      | text sql => rw [List.cons_append, formatFrom, formatFrom, ih, params, String.append_assoc]
      | value v =>
          rw [List.cons_append, formatFrom, formatFrom, ih, params, List.length_cons, String.append_assoc,
            Nat.add_right_comm, Nat.add_assoc next]

theorem leads_nil (depth : Nat) : Leads [] depth depth := fun _ => rfl

theorem leads_text {sql : String} {rest : Fragment} {c d e : Nat} (hsql : depthBehind c sql.toList = some d)
    (hrest : Leads rest d e) : Leads (.text sql :: rest) c e := by
  intro next
  rw [formatFrom, String.toList_append, depthBehind_append, hsql, Option.bind_some, hrest]

theorem depthBehind_numbered (k depth : Nat) : depthBehind depth (numbered k) = some depth := by
  have hdigits : ∀ c, Text.isDecimalDigit c = false → c ≠ '$' → c ∉ numbered k := by
    intro c hc hdollar hmem
    rcases List.mem_cons.mp hmem with h | h
    · exact hdollar h
    · rw [isDecimalDigit_of_mem_toDigits h] at hc
      cases hc
  exact depthBehind_of_not_mem (hdigits _ (by decide) (by decide)) (hdigits _ (by decide) (by decide)) depth

theorem leads_value (v : Json) {rest : Fragment} {d e : Nat} (hrest : Leads rest d e) :
    Leads (.value v :: rest) d e := by
  intro next
  rw [formatFrom, String.toList_append, String.toList_ofList, depthBehind_append, depthBehind_numbered,
    Option.bind_some, hrest]

theorem Leads.append {a b : Fragment} {c d e : Nat} (ha : a.Leads c d) (hb : b.Leads d e) :
    Leads (a ++ b) c e := by
  intro next
  rw [formatFrom_append, String.toList_append, depthBehind_append, ha, Option.bind_some, hb]

theorem Leads.wrap {before after : String} {fragment : Fragment} {a b c d : Nat}
    (hbefore : depthBehind a before.toList = some b) (h : fragment.Leads b c)
    (hafter : depthBehind c after.toList = some d) : Leads (wrap before fragment after) a d :=
  leads_text hbefore (h.append (leads_text hafter (leads_nil d)))

theorem level_separated {separator : String}
    (hseparator : ∀ depth, depthBehind depth separator.toList = some depth) {fragments : List Fragment}
    (h : ∀ fragment ∈ fragments, fragment.Level) :
    (separated separator fragments).Level := by
  intro depth
  induction fragments with
  | nil => exact leads_nil depth
  | cons fragment rest ih =>
      have hhead := h fragment List.mem_cons_self depth
      have hrest := ih fun other hother => h other (List.mem_cons_of_mem fragment hother)
      cases rest with
      | nil => exact hhead
      | cons next rest => exact hhead.append (leads_text (hseparator depth) hrest)

theorem Level.balanced_format {fragment : Fragment} (h : fragment.Level) (next : Nat) :
    Balanced (formatFrom next fragment).toList := balanced_of_depthBehind (h 0 next)

theorem led_text {Behind : List Char → Prop} {sql : String} {c : Char} {chars : List Char}
    (hsql : sql.toList = c :: chars) (hc : c ≠ '(') (rest : Fragment) (next : Nat) :
    Led Behind (formatFrom next (.text sql :: rest)).toList := by
  rw [formatFrom, String.toList_append, hsql]
  exact Led.other _ hc

theorem led_wrap {Behind : List Char → Prop} {fragment : Fragment} (h : fragment.Level) {after : String}
    {rest : List Char} (hafter : after.toList = ')' :: rest) (hrest : Behind rest) (next : Nat) :
    Led Behind (formatFrom next (wrap "(" fragment after)).toList := by
  have hgrouped : (formatFrom next (wrap "(" fragment after)).toList =
      grouped (formatFrom next fragment).toList rest := by
    rw [wrap, List.cons_append, formatFrom, formatFrom_append, formatFrom, formatFrom, String.append_empty,
      String.toList_append, String.toList_append, hafter]
    rfl
  rw [hgrouped]
  exact Led.group (h.balanced_format next) hrest

end Fragment

end Dossier.Sql
