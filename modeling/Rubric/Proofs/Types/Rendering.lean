import Rubric.Proofs.Types.Term
import Rubric.Typing.Error

/-!
# Reading rendered types back

The text of a type leaves out parentheses where the structure is clear without them. A reader that
looks at most two characters ahead can therefore take the text apart again: names end at the first
punctuation, a blank before anything but an arrow makes an application, and parentheses hold one
type or a tuple. Reading a rendered type gives the type itself, as long as its names are words, a
name does not stand for two things, and no tuple has just one element. So types with the same text
are the same.
-/

namespace Rubric

namespace Ty

/-- Whether rendering puts a character between names. -/
def isPunctuation (c : Char) : Bool :=
  c ∈ [' ', '(', ')', '[', ']', ',', '-']

/-- A name that can be told from what stands around it. It may have letters and digits of all
scripts, underscores and primes. -/
def IsWord (name : String) : Prop :=
  name ≠ "" ∧ ∀ c ∈ name.toList, isPunctuation c = false

theorem isWord_iff {name : String} :
    (name ≠ "" ∧ (name.toList.all fun c => !isPunctuation c) = true) ↔ IsWord name := by
  simp [IsWord]

instance (name : String) : Decidable (IsWord name) :=
  decidable_of_iff _ isWord_iff

/-- Types that can be told apart by their texts: there are no tuples of one element, all names are
words, and a label belongs to one variable and to no named type. -/
structure Legible (ts : List Ty) : Prop where
  tuples : ∀ t, .tuple [t] ∉ subtermsAll ts
  names : ∀ name, .con name ∈ subtermsAll ts → IsWord name
  labels : ∀ v, .var v ∈ subtermsAll ts → IsWord v.label
  distinct : ∀ v w, .var v ∈ subtermsAll ts → .var w ∈ subtermsAll ts → v.label = w.label → v = w
  apart : ∀ v name, .var v ∈ subtermsAll ts → .con name ∈ subtermsAll ts → v.label ≠ name

end Ty

/-! ## Readers -/

/-- A reader takes what it understands from the start of a text and leaves the rest. -/
abbrev Reader (α : Type) := List Char → Option (α × List Char)

namespace Reader

open Ty

/-- A name ends at the first punctuation. -/
def name : Reader String := fun text =>
  let word := text.takeWhile fun c => !isPunctuation c
  if word.isEmpty then none
  else some (String.ofList word, text.dropWhile fun c => !isPunctuation c)

/-- The elements of a tuple behind one that was read. -/
def elements (type : Reader Ty) : Nat → Reader (List Ty)
  | _, ')' :: rest => some ([], rest)
  | count + 1, ',' :: ' ' :: text => do
      let (t, rest) ← type text
      let (ts, rest) ← elements type count rest
      some (t :: ts, rest)
  | _, _ => none

/-- A name, a list or something in parentheses. -/
def atom (meaning : String → Ty) (type : Reader Ty) (count : Nat) : Reader Ty
  | '[' :: text => do
      match ← type text with
      | (t, ']' :: rest) => some (.list t, rest)
      | _ => none
  | '(' :: ')' :: rest => some (.tuple [], rest)
  | '(' :: text => do
      let (t, rest) ← type text
      let (ts, rest) ← elements type count rest
      some (if ts.isEmpty then t else .tuple (t :: ts), rest)
  | text => do
      let (word, rest) ← name text
      some (meaning word, rest)

/-- Whether a type can start with a character. -/
def opens (c : Char) : Bool :=
  c = '(' || c = '[' || !isPunctuation c

/-- The arguments behind the head of an application. -/
def row (atom : Reader Ty) : Nat → Reader (List Ty)
  | count + 1, ' ' :: c :: text =>
      if opens c then do
        let (t, rest) ← atom (c :: text)
        let (ts, rest) ← row atom count rest
        some (t :: ts, rest)
      else some ([], ' ' :: c :: text)
  | _, text => some ([], text)

/-- An application, or an atom if no blank follows but the one of an arrow. -/
def operand (atom : Reader Ty) (count : Nat) : Reader Ty := fun text => do
  let (head, rest) ← atom text
  match ← row atom count rest with
  | ([], ' ' :: '-' :: rest) => some (head, ' ' :: '-' :: rest)
  | ([], ' ' :: rest) => some (.app head [], rest)
  | ([], rest) => some (head, rest)
  | (t :: ts, rest) => some (.app head (t :: ts), rest)

/-- A type of bounded depth, in which names have the given meaning. -/
def type (meaning : String → Ty) : Nat → Reader Ty
  | 0, _ => none
  | depth + 1, text => do
      match ← operand (atom meaning (type meaning depth) depth) depth text with
      | (input, ' ' :: '-' :: '>' :: ' ' :: text) => do
          let (output, rest) ← type meaning depth text
          some (.func input output, rest)
      | (t, rest) => some (t, rest)

/-! ## What follows a part of a text -/

/-- A name ends before punctuation and at the end of a text. -/
def Ends (rest : List Char) : Prop :=
  ∀ c ∈ rest.head?, isPunctuation c = true

/-- A type ends before a closing bracket, before a comma and at the end of a text. -/
inductive Closes : List Char → Prop where
  | nil : Closes []
  | parenthesis (rest : List Char) : Closes (')' :: rest)
  | bracket (rest : List Char) : Closes (']' :: rest)
  | comma (rest : List Char) : Closes (',' :: rest)

/-- An operand of an arrow may also end before the arrow. -/
inductive Stops : List Char → Prop where
  | closes {rest : List Char} (h : Closes rest) : Stops rest
  | arrow (rest : List Char) : Stops (' ' :: '-' :: rest)

/-- A reader takes a text away from whatever it can be followed by. -/
def Takes {α : Type} (reader : Reader α) (text : List Char) (a : α)
    (follow : List Char → Prop) : Prop :=
  ∀ rest, follow rest → reader (text ++ rest) = some (a, rest)

theorem Stops.ends {rest : List Char} (h : Stops rest) : Ends rest := by
  intro c hc
  cases h with
  | closes h => cases h <;> cases hc <;> decide
  | arrow more =>
      cases hc
      decide

theorem takes_name {word : String} (h : IsWord word) : Takes name word.toList word Ends := by
  obtain ⟨hne, hword⟩ := h
  intro rest hrest
  have hall : ∀ c ∈ word.toList, (!isPunctuation c) = true := by
    intro c hc
    rw [hword c hc]
    rfl
  have hnone : rest.takeWhile (fun c => !isPunctuation c) = [] ∧
      rest.dropWhile (fun c => !isPunctuation c) = rest := by
    cases rest with
    | nil => exact ⟨rfl, rfl⟩
    | cons c more =>
        have hc : isPunctuation c = true := hrest c rfl
        simp [hc]
  have hfilled : word.toList.isEmpty = false := by
    rw [List.isEmpty_eq_false_iff]
    exact fun hnil => hne (String.toList_eq_nil_iff.mp hnil)
  unfold name
  dsimp only
  rw [List.takeWhile_append_of_pos hall, List.dropWhile_append_of_pos hall, hnone.1, hnone.2,
    List.append_nil, hfilled, String.ofList_toList]
  rfl

/-! ## Texts -/

/-- The text of a type where a single word is expected. -/
def atomText (t : Ty) : List Char :=
  (parenthesized t.isCompound t.render).toList

/-- The text of a type before an arrow. -/
def operandText (t : Ty) : List Char :=
  (parenthesized t.isFunc t.render).toList

theorem toList_parenthesized (text : String) :
    (parenthesized true text).toList = '(' :: (text.toList ++ [')']) := by
  simp [parenthesized]

theorem toList_intercalate_cons (separator first : String) (others : List String) :
    (separator.intercalate (first :: others)).toList =
      first.toList ++ others.flatMap fun text => separator.toList ++ text.toList := by
  induction others generalizing first with
  | nil => simp
  | cons second others ih =>
      rw [String.intercalate_cons_cons, String.toList_append, String.toList_append, ih second,
        List.flatMap_cons]
      simp only [List.append_assoc]

theorem renderAll_eq_map (ts : List Ty) : renderAll ts = ts.map render := by
  induction ts with
  | nil => rfl
  | cons t ts ih => rw [renderAll, ih, List.map_cons]

theorem renderAtoms_eq_map (ts : List Ty) :
    renderAtoms ts = ts.map fun t => parenthesized t.isCompound t.render := by
  induction ts with
  | nil => rfl
  | cons t ts ih => rw [renderAtoms, ih, List.map_cons]

theorem toList_app_nil (base : Ty) :
    (app base []).render.toList = atomText base ++ [' '] := by
  simp [render, renderAtoms, atomText]

theorem toList_app_cons (base t : Ty) (ts : List Ty) :
    (app base (t :: ts)).render.toList =
      atomText base ++ (t :: ts).flatMap fun u => ' ' :: atomText u := by
  rw [render, renderAtoms_eq_map, List.map_cons, String.toList_append, String.toList_append,
    toList_intercalate_cons, List.flatMap_map, List.flatMap_cons]
  simp [atomText]

theorem toList_func (input output : Ty) :
    (func input output).render.toList =
      operandText input ++ ' ' :: '-' :: '>' :: ' ' :: output.render.toList := by
  simp [render, operandText]

theorem toList_list (element : Ty) :
    (list element).render.toList = '[' :: (element.render.toList ++ [']']) := by
  simp [render]

theorem toList_tuple_cons (t : Ty) (ts : List Ty) :
    (tuple (t :: ts)).render.toList =
      '(' :: (t.render.toList ++
        ((ts.flatMap fun u => ',' :: ' ' :: u.render.toList) ++ [')'])) := by
  rw [render, renderAll_eq_map, List.map_cons, String.toList_append, String.toList_append,
    toList_intercalate_cons, List.flatMap_map]
  simp

theorem atomText_of_compound {t : Ty} (h : t.isCompound = true) :
    atomText t = '(' :: (t.render.toList ++ [')']) := by
  rw [atomText, h, toList_parenthesized]

theorem atomText_of_simple {t : Ty} (h : t.isCompound = false) :
    atomText t = t.render.toList := by
  simp [atomText, h, parenthesized]

theorem length_le_sizeAll (ts : List Ty) : ts.length ≤ sizeAll ts := by
  induction ts with
  | nil => exact Nat.le_refl 0
  | cons t ts ih =>
      have hpos : 1 ≤ t.size := by
        cases t <;> simp only [size] <;> omega
      simp only [List.length_cons, sizeAll]
      omega

/-! ## Types that can be read -/

/-- A name is read as what it stands for, and a tuple does not look like a type in parentheses. -/
def Fits (meaning : String → Ty) : Ty → Prop
  | .var v => IsWord v.label ∧ meaning v.label = .var v
  | .con name => IsWord name ∧ meaning name = .con name
  | .tuple ts => ts.length ≠ 1
  | _ => True

/-- All parts of a type can be read. -/
def Readable (meaning : String → Ty) (t : Ty) : Prop :=
  ∀ u ∈ t.subterms, Fits meaning u

variable {meaning : String → Ty}

theorem Readable.fits {t : Ty} (h : Readable meaning t) : Fits meaning t :=
  h t (mem_subterms_self t)

theorem Readable.child {c t : Ty} (h : Readable meaning t) (hc : c ∈ t.children) :
    Readable meaning c :=
  fun u hu => h u (mem_subterms_iff.mpr (.inr ⟨c, hc, hu⟩))

theorem opens_word {word : String} (h : IsWord word) :
    ∃ c more, word.toList = c :: more ∧ opens c = true := by
  obtain ⟨hne, hword⟩ := h
  cases hchars : word.toList with
  | nil => exact (hne (String.toList_eq_nil_iff.mp hchars)).elim
  | cons c more =>
      have hc : isPunctuation c = false := hword c (by rw [hchars]; exact List.mem_cons_self)
      exact ⟨c, more, rfl, by simp [opens, hc]⟩

/-- A text in parentheses or not begins like the text itself or with a parenthesis. -/
theorem opens_parenthesized {needed : Bool} {text : String}
    (h : ∃ c more, text.toList = c :: more ∧ opens c = true) (rest : List Char) :
    ∃ c more, (parenthesized needed text).toList ++ rest = c :: more ∧ opens c = true := by
  obtain ⟨c, more, htext, hc⟩ := h
  cases needed with
  | true =>
      rw [toList_parenthesized]
      exact ⟨_, _, rfl, by decide⟩
  | false => exact ⟨c, more ++ rest, by simp [parenthesized, htext], hc⟩

/-- The first character of a text shows that a type starts there. -/
theorem exists_opens {t : Ty} (h : Readable meaning t) :
    ∃ c more, t.render.toList = c :: more ∧ opens c = true := by
  induction t with
  | var v => exact opens_word h.fits.1
  | con name => exact opens_word h.fits.1
  | app base args ihbase _ =>
      have hbase := ihbase (h.child (by simp [children]))
      cases args with
      | nil =>
          rw [toList_app_nil]
          exact opens_parenthesized hbase _
      | cons t ts =>
          rw [toList_app_cons]
          exact opens_parenthesized hbase _
  | func input output ihinput _ =>
      rw [toList_func]
      exact opens_parenthesized (ihinput (h.child (by simp [children]))) _
  | list element _ =>
      rw [toList_list]
      exact ⟨_, _, rfl, by decide⟩
  | tuple elements _ =>
      cases elements with
      | nil => exact ⟨'(', [')'], by simp [render, renderAll], by decide⟩
      | cons t ts =>
          rw [toList_tuple_cons]
          exact ⟨_, _, rfl, by decide⟩

theorem exists_opens_atom {t : Ty} (h : Readable meaning t) :
    ∃ c more, atomText t = c :: more ∧ opens c = true := by
  unfold atomText
  rw [← List.append_nil (parenthesized t.isCompound t.render).toList]
  exact opens_parenthesized (exists_opens h) []

/-! ## Reading texts -/

theorem elements_reads {read : Reader Ty} {ts : List Ty} {count : Nat}
    (hcount : ts.length ≤ count) (h : ∀ t ∈ ts, Takes read t.render.toList t Closes)
    (rest : List Char) :
    elements read count ((ts.flatMap fun u => ',' :: ' ' :: u.render.toList) ++ ')' :: rest) =
      some (ts, rest) := by
  induction ts generalizing count with
  | nil =>
      rw [List.flatMap_nil, List.nil_append]
      unfold elements
      rfl
  | cons t ts ih =>
      obtain ⟨ht, hts⟩ := List.forall_mem_cons.mp h
      obtain ⟨count, rfl⟩ : ∃ more, count = more + 1 := Nat.exists_eq_add_one.mpr (by
        rw [List.length_cons] at hcount
        omega)
      have hfollow :
          Closes ((ts.flatMap fun u => ',' :: ' ' :: u.render.toList) ++ ')' :: rest) := by
        cases ts with
        | nil => exact .parenthesis rest
        | cons u us => exact .comma _
      rw [List.flatMap_cons, List.cons_append, List.cons_append, List.cons_append,
        List.cons_append, List.append_assoc, elements, ht _ hfollow]
      simp only [Option.bind_eq_bind, Option.bind_some]
      rw [ih (Nat.le_of_succ_le_succ hcount) hts]
      rfl

/-- A parenthesis before a type opens a tuple or just encloses the type. -/
theorem atom_parenthesis {read : Reader Ty} {t : Ty} {ts : List Ty} {count : Nat}
    (hopens : ∃ c more, t.render.toList = c :: more ∧ opens c = true)
    (ht : Takes read t.render.toList t Closes) (hcount : ts.length ≤ count)
    (hts : ∀ u ∈ ts, Takes read u.render.toList u Closes) (rest : List Char) :
    atom meaning read count ('(' :: (t.render.toList ++
        ((ts.flatMap fun u => ',' :: ' ' :: u.render.toList) ++ ')' :: rest))) =
      some (if ts.isEmpty then t else .tuple (t :: ts), rest) := by
  have hfollow : Closes ((ts.flatMap fun u => ',' :: ' ' :: u.render.toList) ++ ')' :: rest) := by
    cases ts with
    | nil => exact .parenthesis rest
    | cons u us => exact .comma _
  have hread := ht _ hfollow
  obtain ⟨c, more, htext, hc⟩ := hopens
  rw [htext] at hread ⊢
  rw [List.cons_append] at hread ⊢
  rw [atom]
  · rw [hread]
    simp only [Option.bind_eq_bind, Option.bind_some]
    rw [elements_reads hcount hts]
    rfl
  · intro others heq
    cases heq
    exact absurd hc (by decide)

theorem takes_word {read : Reader Ty} {count : Nat} {word : String} {t : Ty} (h : IsWord word)
    (hmeaning : meaning word = t) : Takes (atom meaning read count) word.toList t Ends := by
  subst hmeaning
  intro rest hrest
  have hname := takes_name h rest hrest
  obtain ⟨hne, hword⟩ := h
  cases hchars : word.toList with
  | nil => exact (hne (String.toList_eq_nil_iff.mp hchars)).elim
  | cons c more =>
      have hc : isPunctuation c = false := hword c (by rw [hchars]; exact List.mem_cons_self)
      have hother : ∀ d text, isPunctuation d = true → c :: (more ++ rest) ≠ d :: text := by
        intro d text hd heq
        rw [(List.cons.inj heq).1, hd] at hc
        cases hc
      rw [hchars] at hname
      rw [List.cons_append] at hname ⊢
      rw [atom, hname]
      · rfl
      · exact fun text => hother _ text (by decide)
      · exact fun text => hother _ _ (by decide)
      · exact fun text => hother _ text (by decide)

theorem takes_atom {read : Reader Ty} {depth : Nat}
    (hread : ∀ u, Readable meaning u → u.size ≤ depth → Takes read u.render.toList u Closes)
    {t : Ty} (h : Readable meaning t) (hsize : t.size ≤ depth + 1)
    (hcompound : t.isCompound = true → t.size ≤ depth) :
    Takes (atom meaning read depth) (atomText t) t Ends := by
  have hchild : ∀ c ∈ t.children, Takes read c.render.toList c Closes := by
    intro c hc
    have := size_lt_of_mem_children hc
    exact hread c (h.child hc) (by omega)
  intro rest hrest
  cases hkind : t.isCompound with
  | true =>
      have hnone : ∀ u ∈ ([] : List Ty), Takes read u.render.toList u Closes := by simp
      rw [atomText_of_compound hkind, List.cons_append, List.append_assoc]
      exact atom_parenthesis (exists_opens h) (hread t h (hcompound hkind)) (Nat.zero_le _)
        hnone rest
  | false =>
      rw [atomText_of_simple hkind]
      cases t with
      | var v => exact takes_word h.fits.1 h.fits.2 rest hrest
      | con name => exact takes_word h.fits.1 h.fits.2 rest hrest
      | app base args => cases hkind
      | func input output => cases hkind
      | list element =>
          have helement := hchild element (by simp [children]) _ (.bracket rest)
          rw [toList_list, List.cons_append, List.append_assoc, List.singleton_append, atom,
            helement]
          rfl
      | tuple elements =>
          cases elements with
          | nil => rfl
          | cons t ts =>
              obtain ⟨ht, hts⟩ := List.forall_mem_cons.mp hchild
              have hopens := exists_opens (h.child (List.mem_cons_self : t ∈ t :: ts))
              have hcount : ts.length ≤ depth := by
                have hlength := length_le_sizeAll ts
                simp only [size, sizeAll] at hsize
                omega
              have hmany : ts.isEmpty = false := by
                have hfits : (t :: ts).length ≠ 1 := h.fits
                cases ts with
                | nil => exact (hfits rfl).elim
                | cons u us => rfl
              rw [toList_tuple_cons, List.cons_append, List.append_assoc, List.append_assoc,
                List.singleton_append, atom_parenthesis hopens ht hcount hts, hmany]
              rfl

/-! ## Applications and arrows -/

/-- The arguments of an application are over when what follows a blank opens no type. -/
def Rests (rest : List Char) : Prop :=
  ∀ c more, rest = ' ' :: c :: more → opens c = false

theorem Stops.rests {rest : List Char} (h : Stops rest) : Rests rest := by
  rintro c more rfl
  cases h with
  | closes h => cases h
  | arrow => decide

/-- An application without arguments keeps a blank of its own. -/
theorem Stops.rests_blank {rest : List Char} (h : Stops rest) : Rests (' ' :: rest) := by
  intro c more heq
  obtain rfl := (List.cons.inj heq).2
  cases h with
  | closes h => cases h <;> decide
  | arrow => decide

theorem row_rests {read : Reader Ty} {count : Nat} {rest : List Char} (h : Rests rest) :
    row read count rest = some ([], rest) := by
  unfold row
  split
  · next c text => rw [h c text rfl]; rfl
  · rfl

theorem takes_row {read : Reader Ty} {ts : List Ty} {count : Nat} (hcount : ts.length ≤ count)
    (hopens : ∀ t ∈ ts, ∃ c more, atomText t = c :: more ∧ opens c = true)
    (h : ∀ t ∈ ts, Takes read (atomText t) t Ends) :
    Takes (row read count) (ts.flatMap fun u => ' ' :: atomText u) ts Stops := by
  induction ts generalizing count with
  | nil => exact fun rest hrest => row_rests hrest.rests
  | cons t ts ih =>
      intro rest hrest
      obtain ⟨⟨c, more, htext, hc⟩, hopens⟩ := List.forall_mem_cons.mp hopens
      obtain ⟨ht, hts⟩ := List.forall_mem_cons.mp h
      obtain ⟨count, rfl⟩ : ∃ more, count = more + 1 := Nat.exists_eq_add_one.mpr (by
        rw [List.length_cons] at hcount
        omega)
      have hfollow : Ends ((ts.flatMap fun u => ' ' :: atomText u) ++ rest) := by
        cases ts with
        | nil => exact hrest.ends
        | cons u us =>
            intro d hd
            cases hd
            decide
      have hread := ht _ hfollow
      rw [htext] at hread
      rw [List.flatMap_cons, List.cons_append, List.cons_append, List.append_assoc, htext,
        List.cons_append, row, if_pos hc]
      rw [List.cons_append] at hread
      rw [hread]
      simp only [Option.bind_eq_bind, Option.bind_some]
      rw [ih (Nat.le_of_succ_le_succ hcount) hopens hts rest hrest]
      rfl

/-- What is no application is read as its head. -/
theorem takes_operand_of_atom {read : Reader Ty} {text : List Char} {t : Ty} {count : Nat}
    (h : Takes read text t Ends) : Takes (operand read count) text t Stops := by
  intro rest hrest
  unfold operand
  rw [h rest hrest.ends]
  simp only [Option.bind_eq_bind, Option.bind_some]
  rw [row_rests hrest.rests]
  cases hrest with
  | closes h => cases h <;> rfl
  | arrow => rfl

theorem operandText_of_other {t : Ty} (h : t.isFunc = false) :
    operandText t = t.render.toList := by
  simp [operandText, h, parenthesized]

theorem operandText_eq {t : Ty} (h : t.isCompound = t.isFunc) : operandText t = atomText t := by
  rw [operandText, atomText, h]

theorem takes_operand {read : Reader Ty} {depth : Nat}
    (hread : ∀ u, Readable meaning u → u.size ≤ depth + 1 →
      (u.isCompound = true → u.size ≤ depth) → Takes read (atomText u) u Ends)
    {t : Ty} (h : Readable meaning t) (hsize : t.size ≤ depth + 1)
    (hfunc : t.isFunc = true → t.size ≤ depth) :
    Takes (operand read depth) (operandText t) t Stops := by
  by_cases hkind : t.isCompound = t.isFunc
  · rw [operandText_eq hkind]
    exact takes_operand_of_atom (hread t h hsize fun hcompound => hfunc (hkind ▸ hcompound))
  cases t with
  | app base args =>
      have hpart : ∀ u ∈ base :: args, Takes read (atomText u) u Ends := by
        intro u hu
        have := size_lt_of_mem_children (show u ∈ (app base args).children from hu)
        exact hread u (h.child hu) (by omega) fun _ => by omega
      obtain ⟨hbase, hargs⟩ := List.forall_mem_cons.mp hpart
      intro rest hrest
      rw [operandText_of_other rfl]
      unfold operand
      cases args with
      | nil =>
          have hends : Ends (' ' :: rest) := by
            intro c hc
            cases hc
            decide
          rw [toList_app_nil, List.append_assoc, List.singleton_append, hbase _ hends]
          simp only [Option.bind_eq_bind, Option.bind_some]
          rw [row_rests hrest.rests_blank]
          cases hrest with
          | closes h => cases h <;> rfl
          | arrow => rfl
      | cons t ts =>
          have hends : Ends (((t :: ts).flatMap fun u => ' ' :: atomText u) ++ rest) := by
            intro c hc
            cases hc
            decide
          have hcount : (t :: ts).length ≤ depth := by
            have hlength := length_le_sizeAll (t :: ts)
            simp only [size] at hsize
            omega
          have hopens : ∀ u ∈ t :: ts, ∃ c more, atomText u = c :: more ∧ opens c = true :=
            fun u hu => exists_opens_atom (h.child (List.mem_cons_of_mem base hu))
          rw [toList_app_cons, List.append_assoc, hbase _ hends]
          simp only [Option.bind_eq_bind, Option.bind_some]
          rw [takes_row hcount hopens hargs rest hrest]
          rfl
  | _ => exact (hkind rfl).elim

/-- A type that can be read is read from its text, whatever the text is followed by. -/
theorem takes_type {t : Ty} {depth : Nat} (h : Readable meaning t) (hsize : t.size ≤ depth) :
    Takes (type meaning depth) t.render.toList t Closes := by
  induction depth generalizing t with
  | zero =>
      cases t <;> simp only [size] at hsize <;> omega
  | succ depth ih =>
      have hoperand : ∀ u, Readable meaning u → u.size ≤ depth + 1 →
          (u.isFunc = true → u.size ≤ depth) →
          Takes (operand (atom meaning (type meaning depth) depth) depth) (operandText u) u
            Stops := by
        intro u hu hsize hfunc
        refine takes_operand ?_ hu hsize hfunc
        intro w hw hwsize hcompound
        exact takes_atom (fun x hx hxsize => ih hx hxsize) hw hwsize hcompound
      intro rest hrest
      cases hkind : t.isFunc with
      | false =>
          have hreads := hoperand t h hsize (by simp [hkind]) rest (.closes hrest)
          rw [operandText_of_other hkind] at hreads
          rw [type, hreads]
          cases hrest <;> rfl
      | true =>
          cases t with
          | func input output =>
              have hinput : input.size < (func input output).size :=
                size_lt_of_mem_children (by simp [children])
              have houtput : output.size < (func input output).size :=
                size_lt_of_mem_children (by simp [children])
              have hreads := ih (h.child (by simp [children])) (by omega : output.size ≤ depth)
                rest hrest
              rw [toList_func, List.append_assoc, type]
              simp only [List.cons_append]
              rw [hoperand input (h.child (by simp [children])) (by omega) (fun _ => by omega) _
                (.arrow _)]
              simp only [Option.bind_eq_bind, Option.bind_some]
              rw [hreads]
              rfl
          | _ => cases hkind

example : type con 4 "(Int -> [Char]) -> Either () (Maybe Int, Bool)".toList =
    some (func (func (con "Int") (list (con "Char")))
      (app (con "Either") [tuple [], tuple [app (con "Maybe") [con "Int"], con "Bool"]]), []) := by
  decide

end Reader

namespace Ty

/-! ## Telling types apart -/

/-- Whether a type is a variable with the given label. -/
def isLabelled (name : String) : Ty → Bool
  | var v => v.label = name
  | _ => false

/-- What a name stands for among some types: the variable with that label, if there is one. -/
def meaningAmong (ts : List Ty) (name : String) : Ty :=
  ((subtermsAll ts).find? (isLabelled name)).getD (.con name)

namespace Legible

variable {ts : List Ty} (h : Legible ts)

include h

theorem meaning_label {v : TypeVar} (hv : .var v ∈ subtermsAll ts) :
    meaningAmong ts v.label = .var v := by
  unfold meaningAmong
  cases hfind : (subtermsAll ts).find? (isLabelled v.label) with
  | none =>
      have hnone := List.find?_eq_none.mp hfind _ hv
      simp [isLabelled] at hnone
  | some u =>
      have hlabel := List.find?_some hfind
      have hmem := List.mem_of_find?_eq_some hfind
      cases u with
      | var w =>
          have hsame : w.label = v.label := by simpa [isLabelled] using hlabel
          rw [h.distinct w v hmem hv hsame]
          rfl
      | _ => cases hlabel

theorem meaning_name {name : String} (hname : .con name ∈ subtermsAll ts) :
    meaningAmong ts name = .con name := by
  unfold meaningAmong
  cases hfind : (subtermsAll ts).find? (isLabelled name) with
  | none => rfl
  | some u =>
      have hlabel := List.find?_some hfind
      have hmem := List.mem_of_find?_eq_some hfind
      cases u with
      | var w =>
          have hsame : w.label = name := by simpa [isLabelled] using hlabel
          exact (h.apart w name hmem hname hsame).elim
      | _ => cases hlabel

theorem readable {t : Ty} (ht : t ∈ ts) : Reader.Readable (meaningAmong ts) t := by
  intro u hu
  have hmem : u ∈ subtermsAll ts := mem_subtermsAll.mpr ⟨t, ht, hu⟩
  cases u with
  | var v => exact ⟨h.labels v hmem, h.meaning_label hmem⟩
  | con name => exact ⟨h.names name hmem, h.meaning_name hmem⟩
  | app base args => trivial
  | func input output => trivial
  | list element => trivial
  | tuple elements =>
      intro hlength
      obtain ⟨element, rfl⟩ := List.length_eq_one_iff.mp hlength
      exact h.tuples element hmem

end Legible

/-- Texts that go on alike after two types started with the same type. -/
theorem eq_of_texts {a b : Ty} (h : Legible [a, b]) {rest rest' : List Char}
    (hrest : Reader.Closes rest) (hrest' : Reader.Closes rest')
    (htext : a.render.toList ++ rest = b.render.toList ++ rest') : a = b := by
  have ha := Reader.takes_type (h.readable (by simp : a ∈ [a, b])) (Nat.le_max_left a.size b.size)
    rest hrest
  have hb := Reader.takes_type (h.readable (by simp : b ∈ [a, b])) (Nat.le_max_right a.size b.size)
    rest' hrest'
  rw [htext, hb] at ha
  cases ha
  rfl

/-- Types with the same text are the same. The message of a mismatch therefore shows two different
texts, and it tells which of the two types was expected. -/
theorem render_unambiguous {a b : Ty} (h : Legible [a, b]) :
    (a.render = b.render → a = b) ∧
    ∀ context, a ≠ b →
      (TypeError.mismatch a b context).message =
        "type mismatch" ++ (context.map (" in " ++ ·)).getD "" ++
          ": expected " ++ a.render ++ ", found " ++ b.render ∧
      a.render ≠ b.render ∧
      (TypeError.mismatch a b context).message ≠ (TypeError.mismatch b a context).message := by
  have hinjective : a.render = b.render → a = b := by
    intro hrender
    exact eq_of_texts h .nil .nil (by rw [hrender])
  have hcomma : ", found ".toList = ',' :: " found ".toList := by decide
  have horder : ∀ start : String, start ++ a.render ++ ", found " ++ b.render =
      start ++ b.render ++ ", found " ++ a.render → a = b := by
    intro start htext
    have hchars := congrArg String.toList htext
    simp only [String.toList_append, List.append_assoc, hcomma, List.cons_append] at hchars
    exact eq_of_texts h (.comma _) (.comma _) (List.append_cancel_left hchars)
  refine ⟨hinjective, fun context hne => ⟨rfl, fun hrender => hne (hinjective hrender), ?_⟩⟩
  intro hmessage
  unfold TypeError.message at hmessage
  exact hne (horder _ hmessage)

namespace Blanks

/-- An application without arguments in front of an arrow. -/
def applied : Ty :=
  func (app (con "Maybe") []) (var ⟨0, none⟩)

/-- Its head alone in front of the arrow. -/
def bare : Ty :=
  func (con "Maybe") (var ⟨0, none⟩)

theorem legible : Legible [applied, bare] where
  tuples t ht := by simp [applied, bare] at ht
  names name hname := by
    obtain rfl : name = "Maybe" := by simpa [applied, bare] using hname
    decide
  labels v hv := by
    obtain rfl : v = ⟨0, none⟩ := by simpa [applied, bare] using hv
    decide
  distinct v w hv hw _ := by
    obtain rfl : v = ⟨0, none⟩ := by simpa [applied, bare] using hv
    obtain rfl : w = ⟨0, none⟩ := by simpa [applied, bare] using hw
    rfl
  apart v name hv hname := by
    obtain rfl : v = ⟨0, none⟩ := by simpa [applied, bare] using hv
    obtain rfl : name = "Maybe" := by simpa [applied, bare] using hname
    decide

end Blanks

/-- A blank tells the two types apart. -/
theorem render_unambiguous_blanks :
    Legible [Blanks.applied, Blanks.bare] ∧ Blanks.applied.render = "Maybe  -> t0" ∧
      Blanks.bare.render = "Maybe -> t0" ∧
      (TypeError.mismatch Blanks.applied Blanks.bare none).message ≠
        (TypeError.mismatch Blanks.bare Blanks.applied none).message := by
  obtain ⟨_, hmessage⟩ := render_unambiguous Blanks.legible
  exact ⟨Blanks.legible, by decide, by decide, (hmessage none (by decide)).2.2⟩

/-- A tuple of one element looks like its element in parentheses. -/
example : (func (tuple [func (con "A") (con "B")]) (con "C")).render =
    (func (func (con "A") (con "B")) (con "C")).render := by
  decide

end Ty

end Rubric
