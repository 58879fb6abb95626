import FrameChain.Json.Shape
import Mathlib.Data.List.Forall2
import Mathlib.Data.List.Nodup

set_option autoImplicit false

/-! A shape admits a document when it reads it as it stands: nothing is added, dropped or reordered.
Reading takes such entries one after the other and stops at the first value that is refused. -/
namespace FrameChain

open Json (Fault)

namespace Shape

-- Reading is rewritten by its equations throughout, form by form.
attribute [local simp] Draft.ofJson Draft.ofItems Draft.ofEntries read unwrap readItems readByName
  readScalar readBuffered readTagged

/-- The shape reads the document as it stands. -/
def Admits (shape : Shape) (depth : Nat) (j : Json) : Prop :=
  shape.read depth (Draft.ofJson j) = .ok j

theorem admits_text (depth : Nat) (s : String) : text.Admits depth (.text s) := by
  simp [Admits]

theorem admits_bool (depth : Nat) (b : Bool) : bool.Admits depth (.bool b) := by
  simp [Admits]

theorem admits_real (depth : Nat) (x : Float) : real.Admits depth (.float x) := by
  simp [Admits, Json.float]

theorem admits_whole (depth : Nat) {high : Int} {n : Nat} (h : (n : Int) ≤ high) :
    (whole 0 high).Admits depth (.nat n) := by
  simp [Admits, Json.nat, h]

theorem admits_word64 (depth : Nat) {n : Nat} (h : n < UInt64.size) :
    word64.Admits depth (.nat n) :=
  admits_whole depth (by simp only [UInt64.size] at *; omega)

theorem admits_word32 (depth : Nat) (n : UInt32) : word32.Admits depth (.nat n.toNat) :=
  admits_whole depth (by have := n.toNat_lt; simp only [UInt32.size]; omega)

theorem admits_variant (depth : Nat) {names : List String} {s : String} (h : s ∈ names) :
    (variant names).Admits depth (.text s) := by
  simp [Admits, readVariant, h]

theorem read_option {s : Shape} {depth : Nat} {d : Draft} (h : d ≠ .null) :
    (option s).read depth d = s.read depth d := by
  cases d <;> simp_all

theorem admits_option {τ : Type} {s : Shape} {depth : Nat} {encode : τ → Json} {o : Option τ}
    (h : ∀ a ∈ o, s.Admits depth (encode a)) : (option s).Admits depth (.option encode o) := by
  cases o with
  | none => simp [Admits, Json.option]
  | some a =>
    change (option s).read depth (Draft.ofJson (encode a)) = .ok (encode a)
    by_cases hn : encode a = .null
    · simp [hn]
    · have hd : Draft.ofJson (encode a) ≠ .null := by
        cases he : encode a <;> simp_all
      rw [read_option hd]
      exact h a rfl

theorem readItems_admitted {s : Shape} {depth : Nat} {items : List Json}
    (h : ∀ j ∈ items, s.Admits depth j) : readItems s depth (Draft.ofItems items) = .ok items := by
  induction items with
  | nil => simp
  | cons j js ih =>
    have hj : s.read depth (Draft.ofJson j) = .ok j := h j (List.mem_cons_self ..)
    have hjs := ih fun k hk => h k (List.mem_cons_of_mem _ hk)
    simp [hj, hjs, bind, Except.bind, pure, Except.pure]

theorem admits_list {s : Shape} {depth : Nat} {items : List Json}
    (h : ∀ j ∈ items, s.Admits (depth + 1) j) : (list s).Admits (depth + 2) (.list items) := by
  have hitems := readItems_admitted h
  simp [Admits, hitems, closed, bind, Except.bind, pure, Except.pure]

def Written (fits : Shape → Json → Prop) : Fields → List (String × Json) → Prop :=
  List.Forall₂ fun field entry => field.1 = entry.1 ∧ fits field.2.2 entry.2

theorem lookup_of_nodup {τ : Type} {entries : List (String × τ)} (h : (entries.map (·.1)).Nodup)
    {entry : String × τ} (hm : entry ∈ entries) : entries.lookup entry.1 = some entry.2 := by
  induction entries with
  | nil => cases hm
  | cons first rest ih =>
    rw [List.map_cons, List.nodup_cons] at h
    rcases List.mem_cons.1 hm with rfl | hm
    · rw [List.lookup_cons, beq_self_eq_true]
    · have hne : entry.1 ≠ first.1 := fun he => h.1 (he ▸ List.mem_map_of_mem hm)
      rw [List.lookup_cons, beq_false_of_ne hne]
      exact ih h.2 hm

theorem lookup_eq_none_of_not_mem {τ : Type} {entries : List (String × τ)} {key : String}
    (h : key ∉ entries.map (·.1)) : entries.lookup key = none := by
  rw [List.lookup_eq_none_iff]
  intro entry hm
  simpa using fun he : key = entry.1 => h (he ▸ List.mem_map_of_mem hm)

theorem lookup_fresh {found entries : List (String × Json)} {entry : String × Json}
    (fresh : ((found ++ entry :: entries).map (·.1)).Nodup) : found.lookup entry.1 = none := by
  apply lookup_eq_none_of_not_mem
  rw [List.map_append, List.map_cons, List.nodup_append] at fresh
  exact fun hm => fresh.2.2 _ hm _ (List.mem_cons_self ..) rfl

theorem arrange_found {fields : Fields} {entries found : List (String × Json)}
    (names : fields.map (·.1) = entries.map (·.1))
    (h : ∀ entry ∈ entries, found.lookup entry.1 = some entry.2) :
    arrange fields found = .ok entries := by
  induction fields generalizing entries with
  | nil =>
    rw [List.map_nil, eq_comm, List.map_eq_nil_iff] at names
    rw [arrange, names]
  | cons field fields ih =>
    cases entries with
    | nil => simp at names
    | cons entry entries =>
      obtain ⟨name, presence, shape⟩ := field
      obtain ⟨key, value⟩ := entry
      rw [List.map_cons, List.map_cons, List.cons.injEq] at names
      obtain ⟨rfl, names⟩ := names
      have hfirst : found.lookup name = some value := h _ (List.mem_cons_self ..)
      have hrest := ih names fun entry hm => h entry (List.mem_cons_of_mem _ hm)
      simp [arrange, hfirst, hrest, bind, Except.bind, pure, Except.pure]

/-- Admitted entries are taken one after the other, whatever follows them. -/
theorem readByName_append {fields : Fields} {depth : Nat} {stop : Option Fault}
    {found entries : List (String × Json)} {rest : List (Draft × Draft)}
    (fresh : ((found ++ entries).map (·.1)).Nodup)
    (h : ∀ entry ∈ entries, ∃ presence shape,
      fields.lookup entry.1 = some (presence, shape) ∧ shape.Admits depth entry.2) :
    readByName fields depth stop found (Draft.ofEntries entries ++ rest) =
      readByName fields depth stop (found ++ entries) rest := by
  induction entries generalizing found with
  | nil => simp
  | cons entry entries ih =>
    obtain ⟨presence, shape, hlookup, hvalue⟩ := h entry (List.mem_cons_self ..)
    rw [Admits] at hvalue
    have hnew := lookup_fresh fresh
    have happ : found ++ entry :: entries = (found ++ [entry]) ++ entries := by simp
    rw [happ] at fresh ⊢
    rw [← ih fresh fun e hm => h e (List.mem_cons_of_mem _ hm)]
    simp [Draft.key, hlookup, hnew, hvalue]

theorem Written.names {fits : Shape → Json → Prop} {fields : Fields}
    {entries : List (String × Json)} (h : Written fits fields entries) : fields.map (·.1) = entries.map (·.1) := by
  induction h with
  | nil => rfl
  | cons hd _ ih => rw [List.map_cons, List.map_cons, hd.1, ih]

theorem Written.lookup {fits : Shape → Json → Prop} {fields : Fields}
    {entries : List (String × Json)} (h : Written fits fields entries) (later : Fields)
    (distinct : ((fields ++ later).map (·.1)).Nodup) :
    ∀ entry ∈ entries, ∃ presence shape,
      (fields ++ later).lookup entry.1 = some (presence, shape) ∧ fits shape entry.2 := by
  intro entry hm
  obtain ⟨field, hf, hname, hvalue⟩ : ∃ field ∈ fields,
      field.1 = entry.1 ∧ fits field.2.2 entry.2 := by
    clear distinct
    induction h with
    | nil => cases hm
    | cons hd _ ih =>
      rcases List.mem_cons.1 hm with rfl | hm
      · exact ⟨_, List.mem_cons_self .., hd⟩
      · obtain ⟨field, hf, hb⟩ := ih hm
        exact ⟨field, List.mem_cons_of_mem _ hf, hb⟩
  have hlookup := lookup_of_nodup distinct (List.mem_append_left _ hf)
  exact ⟨field.2.1, field.2.2, hname ▸ hlookup, hvalue⟩

theorem admits_record {depth : Nat} {fields : Fields} {entries : List (String × Json)}
    (distinct : (fields.map (·.1)).Nodup) (h : Written (·.Admits (depth + 1) ·) fields entries) :
    (record fields).Admits (depth + 2) (.object entries) := by
  have hlookup := h.lookup [] (by simpa using distinct)
  have keys : (entries.map (·.1)).Nodup := h.names ▸ distinct
  have hread : readByName fields (depth + 1) none [] (Draft.ofEntries entries) = .ok entries := by
    rw [← List.append_nil (Draft.ofEntries entries),
      readByName_append (by simpa using keys) (by simpa using hlookup), readByName, List.nil_append]
    exact arrange_found h.names fun entry hm => lookup_of_nodup keys hm
  simp [Admits, hread, bind, Except.bind, pure, Except.pure]

theorem refuses_record {depth : Nat} {fields later : Fields} {field : String × Presence × Shape}
    {entries rest : List (String × Json)} {value : Json} {fault : Fault}
    (distinct : ((fields ++ field :: later).map (·.1)).Nodup)
    (h : Written (·.Admits (depth + 1) ·) fields entries)
    (refused : field.2.2.read (depth + 1) (Draft.ofJson value) = .error fault) :
    (record (fields ++ field :: later)).read (depth + 2)
      (Draft.ofJson (.object (entries ++ (field.1, value) :: rest))) = .error fault := by
  have hlookup := h.lookup _ distinct
  have hfield := lookup_of_nodup distinct (List.mem_append_right _ (List.mem_cons_self ..))
  rw [List.map_append, List.map_cons, List.nodup_append] at distinct
  have keys : (entries.map (·.1)).Nodup := h.names ▸ distinct.1
  have hnew : entries.lookup field.1 = none := by
    apply lookup_eq_none_of_not_mem
    rw [← h.names]
    exact fun hm => distinct.2.2 _ hm _ (List.mem_cons_self ..) rfl
  have hsplit : Draft.ofEntries (entries ++ (field.1, value) :: rest) =
      Draft.ofEntries entries ++ (.text field.1, Draft.ofJson value) :: Draft.ofEntries rest := by
    clear h hlookup keys hnew
    induction entries with
    | nil => simp
    | cons _ _ ih => simp [ih]
  have hread : readByName (fields ++ field :: later) (depth + 1) none []
      (Draft.ofEntries (entries ++ (field.1, value) :: rest)) = .error fault := by
    rw [hsplit, readByName_append (by simpa using keys) hlookup]
    simp [Draft.key, hfield, hnew, refused]
  simp [hread, bind, Except.bind]

def IsLeaf : Json → Prop
  | .list _ | .object _ => False
  | _ => True

def Keeps (shape : Shape) (j : Json) : Prop := IsLeaf j ∧ readScalar shape j = .ok j

theorem document_leaf {j : Json} (h : IsLeaf j) (depth : Nat) :
    Draft.document depth (Draft.ofJson j) = .ok j := by
  cases j <;> simp_all [IsLeaf, Draft.document]

theorem keeps_text (s : String) : text.Keeps (.text s) := by
  simp [Keeps, IsLeaf]

theorem keeps_whole {high : Int} {n : Nat} (h : (n : Int) ≤ high) :
    (whole 0 high).Keeps (.nat n) := by
  simp [Keeps, IsLeaf, Json.nat, h]

theorem keeps_word64 {n : Nat} (h : n < UInt64.size) : word64.Keeps (.nat n) :=
  keeps_whole (by simp only [UInt64.size] at *; omega)

theorem keeps_option {τ : Type} {s : Shape} {encode : τ → Json} {o : Option τ}
    (h : ∀ a ∈ o, s.Keeps (encode a)) : (option s).Keeps (.option encode o) := by
  cases o with
  | none => simp [Keeps, IsLeaf, Json.option]
  | some a =>
    obtain ⟨leaf, value⟩ := h a rfl
    refine ⟨leaf, ?_⟩
    change readScalar (option s) (encode a) = .ok (encode a)
    cases he : encode a <;> simp_all

theorem readTagged_leaves {tag name : String} {cases : List String} {depth : Nat}
    {entries : List (String × Json)} (h : ∀ entry ∈ entries, entry.1 ≠ tag ∧ IsLeaf entry.2) :
    readTagged tag cases depth (some name) (Draft.ofEntries entries) =
      .ok (some name, entries) := by
  induction entries with
  | nil => simp
  | cons entry entries ih =>
    obtain ⟨hkey, leaf⟩ := h entry (List.mem_cons_self ..)
    have hrest := ih fun e hm => h e (List.mem_cons_of_mem _ hm)
    simp [Draft.key, hkey, document_leaf leaf, hrest, bind, Except.bind, pure, Except.pure]

theorem readBuffered_kept {fields : Fields} {found entries : List (String × Json)}
    (fresh : ((found ++ entries).map (·.1)).Nodup)
    (h : ∀ entry ∈ entries, ∃ presence shape,
      fields.lookup entry.1 = some (presence, shape) ∧ shape.Keeps entry.2) :
    readBuffered fields found entries = arrange fields (found ++ entries) := by
  induction entries generalizing found with
  | nil => simp
  | cons entry entries ih =>
    obtain ⟨presence, shape, hlookup, -, hvalue⟩ := h entry (List.mem_cons_self ..)
    have hnew := lookup_fresh fresh
    have happ : found ++ entry :: entries = (found ++ [entry]) ++ entries := by simp
    rw [happ] at fresh ⊢
    rw [← ih fresh fun e hm => h e (List.mem_cons_of_mem _ hm)]
    simp [hlookup, hnew, hvalue, bind, Except.bind]

theorem admits_tagged {depth : Nat} {tag name : String} {cases : List (String × Fields)}
    {fields : Fields} {entries : List (String × Json)} (case : cases.lookup name = some fields)
    (distinct : (tag :: fields.map (·.1)).Nodup) (h : Written Keeps fields entries) :
    (tagged tag cases).Admits (depth + 2) (.object ((tag, .text name) :: entries)) := by
  rw [List.nodup_cons] at distinct
  have hlookup := h.lookup [] (by simpa using distinct.2)
  have keys : (entries.map (·.1)).Nodup := h.names ▸ distinct.2
  have hname : name ∈ cases.map (·.1) := by
    obtain ⟨before, after, heq, -⟩ := List.lookup_eq_some_iff.1 case
    simp [heq]
  have hothers : readTagged tag (cases.map (·.1)) (depth + 1) (some name)
      (Draft.ofEntries entries) = .ok (some name, entries) := by
    apply readTagged_leaves
    intro entry hm
    obtain ⟨_, _, -, leaf, -⟩ := hlookup entry hm
    refine ⟨?_, leaf⟩
    rintro rfl
    exact distinct.1 (h.names ▸ List.mem_map_of_mem hm)
  have hfields : readBuffered fields [] entries = .ok entries := by
    rw [readBuffered_kept (by simpa using keys) (by simpa using hlookup), List.nil_append]
    exact arrange_found h.names fun entry hm => lookup_of_nodup keys hm
  simp [Admits, readCases, Draft.key, hname, hothers, closed, case, hfields, bind, Except.bind, pure,
    Except.pure]

end Shape
end FrameChain
