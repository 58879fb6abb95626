import FrameChain.Document.Condition
import FrameChain.Document.Config
import FrameChain.Document.Event
import FrameChain.Document.Snapshot
import FrameChain.Proofs.Documents.Shapes

set_option autoImplicit false

namespace FrameChain

open Json (Fault)

structure Format (τ : Type) where
  /-- The values whose numbers are words. -/
  range : τ → Prop := fun _ => True
  shape : Shape
  encode : τ → Json
  decode : Json → Except Fault τ

namespace Format

variable {τ : Type} (f : Format τ)

def read (j : Json) : Except Fault τ := do f.decode (← f.shape.read Shape.maxDepth (Draft.ofJson j))

def Returns (a : τ) : Prop := f.read (f.encode a) = .ok a

/-- No other value is written like this one. -/
def Alone (a : τ) : Prop := ∀ b, f.range b → f.encode b = f.encode a → b = a

theorem returns_of_admits {f : Format τ} {a : τ}
    (admitted : f.shape.Admits Shape.maxDepth (f.encode a))
    (decoded : f.decode (f.encode a) = .ok a) : f.Returns a := by
  rw [Shape.Admits] at admitted
  simp [Returns, read, admitted, decoded, bind, Except.bind]

theorem Returns.inj {f : Format τ} {a b : τ} (ha : f.Returns a) (hb : f.Returns b)
    (same : f.encode b = f.encode a) : b = a := by
  rw [Returns] at ha hb
  rw [same, ha] at hb
  exact (Except.ok.inj hb).symm

end Format

/-! ## One real number

A format that holds one: the number is what decides.
-/

def otherLimit (x : Float) : Float := if x.isNaN then 1.0 / 0.0 else 0.0 / 0.0

theorem otherLimit_not_isFinite (x : Float) : ¬ (otherLimit x).isFinite := by
  rw [otherLimit]
  split <;> decide +kernel

theorem otherLimit_ne (x : Float) : otherLimit x ≠ x := by
  intro same
  have hNaN := congrArg Float.isNaN same
  rw [otherLimit] at hNaN
  split at hNaN
  case isTrue h =>
    rw [h] at hNaN
    revert hNaN
    decide +kernel
  case isFalse h =>
    rw [← hNaN] at h
    revert h
    decide +kernel

/-- A finite number comes back, and any other is refused and written as a further one is. -/
structure Format.Settles {τ : Type} (f : Format τ) (number : τ → Float) : Prop where
  returns : ∀ a, f.range a → (number a).isFinite → f.Returns a
  refused : ∀ a, f.range a → ¬ (number a).isFinite → f.read (f.encode a) = .error .mismatched
  twin : ∀ a, f.range a → ¬ (number a).isFinite → ∃ b, f.range b ∧ f.encode b = f.encode a ∧ b ≠ a

namespace Format.Settles

variable {τ : Type} {f : Format τ} {number : τ → Float} {a : τ}

theorem returns_iff (h : f.Settles number) (ha : f.range a) :
    f.Returns a ↔ (number a).isFinite := by
  refine ⟨fun returns => ?_, h.returns a ha⟩
  by_contra infinite
  rw [Returns, h.refused a ha infinite] at returns
  cases returns

theorem alone_iff (h : f.Settles number) (ha : f.range a) : f.Alone a ↔ (number a).isFinite := by
  constructor
  · intro alone
    by_contra infinite
    obtain ⟨b, hb, same, differ⟩ := h.twin a ha infinite
    exact differ (alone b hb same)
  · intro finite b hb same
    have ha' := h.returns a ha finite
    refine ha'.inj ?_ same
    -- A twin that is not finite would be refused, and so would this value.
    by_contra hb'
    rw [h.returns_iff hb] at hb'
    have refused := h.refused b hb hb'
    rw [Returns, ← same, refused] at ha'
    cases ha'

end Format.Settles

namespace Json

theorem ok_bind {α β : Type} (a : α) (next : α → Except Fault β) :
    (Except.ok a >>= next) = next a := rfl

theorem asNat_nat {bound n : Nat} (h : n < bound) : (nat n).asNat bound = .ok n := by
  simp [nat, asNat, h]

theorem asWord32_nat (n : UInt32) : (nat n.toNat).asWord32 = .ok n := by
  rw [asWord32, asNat_nat n.toNat_lt_size, ok_bind, UInt32.ofNat_toNat]
  rfl

theorem asWord64_nat (n : UInt64) : (nat n.toNat).asWord64 = .ok n := by
  rw [asWord64, asNat_nat n.toNat_lt_size, ok_bind, UInt64.ofNat_toNat]
  rfl

theorem asOption_option {τ : Type} {encode : τ → Json} {decode : Json → Except Fault τ}
    {o : Option τ} (h : ∀ a ∈ o, encode a ≠ null ∧ decode (encode a) = .ok a) :
    asOption decode (option encode o) = .ok o := by
  cases o with
  | none => rfl
  | some a =>
    obtain ⟨hnull, hdecode⟩ := h a rfl
    rw [option]
    cases he : encode a <;> simp_all [asOption, ok_bind, pure, Except.pure]

theorem asOption_text (o : Option String) : asOption asText (option text o) = .ok o :=
  asOption_option fun _ _ => ⟨nofun, rfl⟩

theorem asList_list {τ : Type} {encode : τ → Json} {decode : Json → Except Fault τ}
    {items : List τ} (h : ∀ a ∈ items, decode (encode a) = .ok a) :
    asList decode (list (items.map encode)) = .ok items := by
  rw [asList]
  induction items with
  | nil => rfl
  | cons a items ih =>
    have hrest := ih fun b hb => h b (List.mem_cons_of_mem _ hb)
    simp [List.mapM_cons, h a (List.mem_cons_self ..), hrest, ok_bind, pure, Except.pure]

theorem finite_of_isFinite {x : Float} (h : x.isFinite) : finite x = float x := if_pos h

theorem finite_of_not_isFinite {x : Float} (h : ¬ x.isFinite) : finite x = null := if_neg h

end Json

theorem EntityId.ofJson_toJson {id : EntityId} (h : id.val < UInt64.size) :
    EntityId.ofJson id.toJson = .ok id := by
  rw [EntityId.ofJson, EntityId.toJson, Json.asNat_nat h]
  rfl

theorem ComponentId.ofJson_toJson {id : ComponentId} (h : id.val < UInt64.size) :
    ComponentId.ofJson id.toJson = .ok id := by
  rw [ComponentId.ofJson, ComponentId.toJson, Json.asNat_nat h]
  rfl

theorem Speed.ofJson_toJson (speed : Speed) : Speed.ofJson speed.toJson = .ok speed := by
  simp [Speed.ofJson, Speed.toJson, Json.asText, Speed.ofText?_text, Json.ok_bind, pure, Except.pure]

theorem Lifecycle.ofJson_toJson (state : Lifecycle) : Lifecycle.ofJson state.toJson = .ok state := by
  simp [Lifecycle.ofJson, Lifecycle.toJson, Json.asText, Lifecycle.ofText?_text, Json.ok_bind, pure,
    Except.pure]

theorem Speed.admits (depth : Nat) (speed : Speed) : Speed.shape.Admits depth speed.toJson :=
  Shape.admits_variant depth (by cases speed <;> decide)

theorem Lifecycle.admits (depth : Nat) (state : Lifecycle) :
    Lifecycle.shape.Admits depth state.toJson :=
  Shape.admits_variant depth (by cases state <;> decide)

theorem Shape.refuses_limit {x : Float} (infinite : ¬ x.isFinite) (depth : Nat) :
    Shape.real.read depth (Draft.ofJson (.finite x)) = .error .mismatched := by
  rw [Json.finite_of_not_isFinite infinite, Draft.ofJson, Shape.read] <;> nofun

def Condition.format : Format Condition where
  shape := Condition.shape
  encode := Condition.toJson
  decode := Condition.ofJson

theorem Condition.returns (c : Condition) : Condition.format.Returns c := by
  refine Format.returns_of_admits (Shape.admits_record (by decide) ?_) ?_
  · refine .cons ⟨rfl, ?_⟩ (.cons ⟨rfl, ?_⟩ (.cons ⟨rfl, ?_⟩ (.cons ⟨rfl, ?_⟩ (.cons ⟨rfl, ?_⟩ .nil))))
    · exact Shape.admits_option fun _ _ => Shape.admits_text ..
    · exact Shape.admits_option fun _ _ => Shape.admits_text ..
    · exact Shape.admits_option fun _ _ => Shape.admits_word32 ..
    · exact Shape.admits_word32 ..
    · exact Shape.admits_option fun _ _ => Shape.admits_text ..
  · have state : Json.asOption Json.asWord32 (.option (fun n => .nat n.toNat) c.state) = .ok c.state :=
      Json.asOption_option fun n _ => ⟨nofun, Json.asWord32_nat n⟩
    simp [format, Condition.ofJson, Condition.toJson, Json.field?, Json.fieldD, Json.get?, List.lookup_cons,
      Json.asOption_text, state, Json.asWord32_nat, Json.ok_bind, pure, Except.pure]

namespace Event

def numbers : Event → List Nat
  | entityAdded frame entity _ | entityRemoved frame entity => [frame, entity.val]
  | componentAttached frame entity component _ | componentFinished frame entity component _
  | componentDetached frame entity component _ | componentRemoved frame entity component =>
    [frame, entity.val, component.val]
  | messageSent frame _ origin => frame :: (origin.map (·.val)).toList

def format : Format Event where
  range e := ∀ n ∈ e.numbers, n < UInt64.size
  shape := shape
  encode := toJson
  decode := ofJson

theorem admits {e : Event} (h : ∀ n ∈ e.numbers, n < UInt64.size) (depth : Nat) :
    shape.Admits (depth + 2) e.toJson := by
  cases e with
  | entityAdded frame entity name =>
    have hframe := Shape.keeps_word64 (h frame (by simp [numbers]))
    have hentity := Shape.keeps_word64 (h entity.val (by simp [numbers]))
    exact Shape.admits_tagged rfl (by decide)
      (.cons ⟨rfl, hframe⟩ (.cons ⟨rfl, hentity⟩ (.cons ⟨rfl, Shape.keeps_text name⟩ .nil)))
  | entityRemoved frame entity =>
    have hframe := Shape.keeps_word64 (h frame (by simp [numbers]))
    have hentity := Shape.keeps_word64 (h entity.val (by simp [numbers]))
    exact Shape.admits_tagged rfl (by decide) (.cons ⟨rfl, hframe⟩ (.cons ⟨rfl, hentity⟩ .nil))
  | componentAttached frame entity component name
  | componentFinished frame entity component name
  | componentDetached frame entity component name =>
    have hframe := Shape.keeps_word64 (h frame (by simp [numbers]))
    have hentity := Shape.keeps_word64 (h entity.val (by simp [numbers]))
    have hcomponent := Shape.keeps_word64 (h component.val (by simp [numbers]))
    exact Shape.admits_tagged rfl (by decide) (.cons ⟨rfl, hframe⟩ (.cons ⟨rfl, hentity⟩
      (.cons ⟨rfl, hcomponent⟩ (.cons ⟨rfl, Shape.keeps_text name⟩ .nil))))
  | componentRemoved frame entity component =>
    have hframe := Shape.keeps_word64 (h frame (by simp [numbers]))
    have hentity := Shape.keeps_word64 (h entity.val (by simp [numbers]))
    have hcomponent := Shape.keeps_word64 (h component.val (by simp [numbers]))
    exact Shape.admits_tagged rfl (by decide)
      (.cons ⟨rfl, hframe⟩ (.cons ⟨rfl, hentity⟩ (.cons ⟨rfl, hcomponent⟩ .nil)))
  | messageSent frame key origin =>
    have hframe := Shape.keeps_word64 (h frame (by simp [numbers]))
    have horigin : (Shape.option Shape.word64).Keeps (.option EntityId.toJson origin) :=
      Shape.keeps_option fun id hid => Shape.keeps_word64 (h id.val (by simp_all [numbers]))
    exact Shape.admits_tagged rfl (by decide)
      (.cons ⟨rfl, hframe⟩ (.cons ⟨rfl, Shape.keeps_text key⟩ (.cons ⟨rfl, horigin⟩ .nil)))

theorem ofJson_toJson {e : Event} (h : ∀ n ∈ e.numbers, n < UInt64.size) :
    ofJson e.toJson = .ok e := by
  cases e with
  | entityAdded frame entity name =>
    have hframe := Json.asNat_nat (h frame (by simp [numbers]))
    have hentity := EntityId.ofJson_toJson (h entity.val (by simp [numbers]))
    simp [ofJson, toJson, fields, kind, Json.field, Json.get?, List.lookup_cons, Json.asText, Json.ok_bind,
      hframe, hentity, pure, Except.pure]
  | entityRemoved frame entity =>
    have hframe := Json.asNat_nat (h frame (by simp [numbers]))
    have hentity := EntityId.ofJson_toJson (h entity.val (by simp [numbers]))
    simp [ofJson, toJson, fields, kind, Json.field, Json.get?, List.lookup_cons, Json.asText, Json.ok_bind,
      hframe, hentity, pure, Except.pure]
  | componentAttached frame entity component name
  | componentFinished frame entity component name
  | componentDetached frame entity component name
  | componentRemoved frame entity component =>
    have hframe := Json.asNat_nat (h frame (by simp [numbers]))
    have hentity := EntityId.ofJson_toJson (h entity.val (by simp [numbers]))
    have hcomponent := ComponentId.ofJson_toJson (h component.val (by simp [numbers]))
    simp [ofJson, toJson, fields, kind, Json.field, Json.get?, List.lookup_cons, Json.asText, Json.ok_bind,
      hframe, hentity, hcomponent, pure, Except.pure]
  | messageSent frame key origin =>
    have hframe := Json.asNat_nat (h frame (by simp [numbers]))
    have horigin : Json.asOption EntityId.ofJson (.option EntityId.toJson origin) = .ok origin :=
      Json.asOption_option fun id hid =>
        ⟨Json.noConfusion, EntityId.ofJson_toJson (h id.val (by simp_all [numbers]))⟩
    simp [ofJson, toJson, fields, kind, Json.field, Json.field?, Json.fieldD, Json.get?, List.lookup_cons,
      Json.asText, Json.ok_bind, hframe, horigin, pure, Except.pure]

theorem returns {e : Event} (h : format.range e) : format.Returns e :=
  Format.returns_of_admits (admits h _) (ofJson_toJson h)

end Event

def ComponentSnapshot.InRange (c : ComponentSnapshot) : Prop := c.id.val < UInt64.size

theorem ComponentSnapshot.admits {c : ComponentSnapshot} (h : c.InRange) (depth : Nat) :
    ComponentSnapshot.shape.Admits (depth + 2) c.toJson :=
  Shape.admits_record (by decide) (.cons ⟨rfl, Shape.admits_word64 _ h⟩
    (.cons ⟨rfl, Shape.admits_text ..⟩ (.cons ⟨rfl, Lifecycle.admits ..⟩ .nil)))

theorem ComponentSnapshot.ofJson_toJson {c : ComponentSnapshot} (h : c.InRange) :
    ComponentSnapshot.ofJson c.toJson = .ok c := by
  have id := ComponentId.ofJson_toJson h
  simp [ComponentSnapshot.ofJson, ComponentSnapshot.toJson, Json.field, Json.get?, List.lookup_cons,
    Json.asText, id, Lifecycle.ofJson_toJson, Json.ok_bind, pure, Except.pure]

def EntitySnapshot.InRange (e : EntitySnapshot) : Prop :=
  e.id.val < UInt64.size ∧ ∀ c ∈ e.components, c.InRange

theorem EntitySnapshot.admits {e : EntitySnapshot} (h : e.InRange) (depth : Nat) :
    EntitySnapshot.shape.Admits (depth + 4) e.toJson := by
  refine Shape.admits_record (by decide) ?_
  refine .cons ⟨rfl, Shape.admits_word64 _ h.1⟩ (.cons ⟨rfl, Shape.admits_text ..⟩
    (.cons ⟨rfl, ?_⟩ (.cons ⟨rfl, Shape.admits_word32 ..⟩ (.cons ⟨rfl, Shape.admits_word32 ..⟩
      (.cons ⟨rfl, Shape.admits_bool ..⟩ (.cons ⟨rfl, ?_⟩ .nil))))))
  · exact Shape.admits_option fun _ _ => Shape.admits_text ..
  · apply Shape.admits_list
    intro j hj
    obtain ⟨c, hc, rfl⟩ := List.mem_map.1 hj
    exact ComponentSnapshot.admits (h.2 c hc) depth

theorem EntitySnapshot.ofJson_toJson {e : EntitySnapshot} (h : e.InRange) :
    EntitySnapshot.ofJson e.toJson = .ok e := by
  have id := EntityId.ofJson_toJson h.1
  have components := Json.asList_list fun c hc => ComponentSnapshot.ofJson_toJson (h.2 c hc)
  simp [EntitySnapshot.ofJson, EntitySnapshot.toJson, Json.field, Json.field?, Json.fieldD, Json.get?,
    List.lookup_cons, Json.asText, Json.asBool, Json.asOption_text, Json.asWord32_nat, id, components,
    Json.ok_bind, pure, Except.pure]

namespace Snapshot

def format : Format Snapshot where
  range s := s.frame < UInt64.size ∧ ∀ e ∈ s.entities, e.InRange
  shape := shape
  encode := toJson
  decode := ofJson

theorem returns {s : Snapshot} (h : format.range s) (finite : s.absolute.isFinite) :
    format.Returns s := by
  obtain ⟨hframe, hentities⟩ : s.frame < UInt64.size ∧ ∀ e ∈ s.entities, e.InRange := h
  apply Format.returns_of_admits
  · refine Shape.admits_record (by decide) ?_
    refine .cons ⟨rfl, Shape.admits_word64 _ hframe⟩ (.cons ⟨rfl, ?_⟩ (.cons ⟨rfl, ?_⟩ .nil))
    · rw [Json.finite_of_isFinite finite]
      exact Shape.admits_real ..
    · apply Shape.admits_list
      intro j hj
      obtain ⟨e, he, rfl⟩ := List.mem_map.1 hj
      exact EntitySnapshot.admits (hentities e he) _
  · have frame := Json.asNat_nat hframe
    have entities := Json.asList_list fun e he => EntitySnapshot.ofJson_toJson (hentities e he)
    simp [format, ofJson, toJson, Json.field, Json.get?, List.lookup_cons, Json.finite_of_isFinite finite,
      Json.float, Json.asFloat, frame, entities, Json.ok_bind, pure, Except.pure]

theorem refused {s : Snapshot} (h : format.range s) (infinite : ¬ s.absolute.isFinite) :
    format.read s.toJson = .error .mismatched := by
  have written : Shape.Written (·.Admits 127 ·) [("frame", .required, .word64)]
      [("frame", .nat s.frame)] := .cons ⟨rfl, Shape.admits_word64 _ h.1⟩ .nil
  have refused : shape.read Shape.maxDepth (Draft.ofJson s.toJson) = .error .mismatched :=
    Shape.refuses_record (by decide) written (Shape.refuses_limit infinite _)
  rw [Format.read, format, refused]
  rfl

theorem settles : format.Settles Snapshot.absolute where
  returns _ := returns
  refused _ := refused
  twin s h infinite := by
    refine ⟨{ s with absolute := otherLimit s.absolute }, h, ?_, ?_⟩
    · simp [format, toJson, Json.finite_of_not_isFinite infinite,
        Json.finite_of_not_isFinite (otherLimit_not_isFinite _)]
    · exact fun same => otherLimit_ne _ (congrArg Snapshot.absolute same)

end Snapshot

namespace Config

def format : Format Config where
  shape := shape
  encode := toJson
  decode := ofJson

theorem returns {c : Config} (finite : c.frameRate.isFinite) : format.Returns c := by
  apply Format.returns_of_admits
  · refine Shape.admits_record (by decide) ?_
    refine .cons ⟨rfl, ?_⟩ (.cons ⟨rfl, Speed.admits ..⟩ (.cons ⟨rfl, ?_⟩ (.cons ⟨rfl, ?_⟩ .nil)))
    · rw [Json.finite_of_isFinite finite]
      exact Shape.admits_real ..
    · exact Shape.admits_word64 _ c.seed.toNat_lt_size
    · exact Shape.admits_word64 _ c.frames.toNat_lt_size
  · simp [format, ofJson, toJson, Json.fieldD, Json.get?, List.lookup_cons,
      Json.finite_of_isFinite finite, Json.float, Json.asFloat, Speed.ofJson_toJson,
      Json.asWord64_nat, Json.ok_bind, pure, Except.pure]

theorem refused {c : Config} (infinite : ¬ c.frameRate.isFinite) :
    format.read c.toJson = .error .mismatched := by
  have refused : shape.read Shape.maxDepth (Draft.ofJson c.toJson) = .error .mismatched :=
    Shape.refuses_record (by decide) .nil (Shape.refuses_limit infinite _)
  rw [Format.read, format, refused]
  rfl

theorem settles : format.Settles Config.frameRate where
  returns _ _ := returns
  refused _ _ := refused
  twin c _ infinite := by
    refine ⟨{ c with frameRate := otherLimit c.frameRate }, trivial, ?_, ?_⟩
    · simp [format, toJson, Json.finite_of_not_isFinite infinite,
        Json.finite_of_not_isFinite (otherLimit_not_isFinite _)]
    · exact fun same => otherLimit_ne _ (congrArg Config.frameRate same)

end Config

/-- Every event and every condition comes back from its document and is alone with it. A snapshot or
a settings record does so exactly if its real number is finite; otherwise its document holds `null` in
that number's place, and is refused for its shape. -/
theorem documents_round_trip :
    (∀ e, Event.format.range e → Event.format.Returns e ∧ Event.format.Alone e) ∧
    (∀ c, Condition.format.Returns c ∧ Condition.format.Alone c) ∧
    (∀ s, Snapshot.format.range s →
      (Snapshot.format.Returns s ↔ s.absolute.isFinite) ∧
      (Snapshot.format.Alone s ↔ s.absolute.isFinite) ∧
      (¬ s.absolute.isFinite → s.toJson.get? "absolute" = some .null ∧
        Snapshot.format.read s.toJson = .error .mismatched)) ∧
    (∀ c : Config,
      (Config.format.Returns c ↔ c.frameRate.isFinite) ∧
      (Config.format.Alone c ↔ c.frameRate.isFinite) ∧
      (¬ c.frameRate.isFinite → c.toJson.get? "frame_rate" = some .null ∧
        Config.format.read c.toJson = .error .mismatched)) := by
  refine ⟨fun e he => ?events, fun c => ?conditions, fun s hs => ?snapshots, fun c => ?settings⟩
  case events => exact ⟨Event.returns he, fun b hb => (Event.returns he).inj (Event.returns hb)⟩
  case conditions => exact ⟨c.returns, fun b _ => c.returns.inj b.returns⟩
  case snapshots =>
    refine ⟨Snapshot.settles.returns_iff hs, Snapshot.settles.alone_iff hs, fun infinite => ?_⟩
    refine ⟨?_, Snapshot.refused hs infinite⟩
    simp [Snapshot.toJson, Json.get?, List.lookup_cons, Json.finite_of_not_isFinite infinite]
  case settings =>
    refine ⟨Config.settles.returns_iff trivial, Config.settles.alone_iff trivial, fun infinite => ?_⟩
    refine ⟨?_, Config.refused infinite⟩
    simp [Config.toJson, Json.get?, Json.finite_of_not_isFinite infinite]

/-- A message without an origin at the last frame there is, and the snapshot of a scene whose time has
overflowed. -/
theorem documents_round_trip_limits :
    Event.format.Returns (.messageSent (UInt64.size - 1) "ping" none) ∧
    ¬ Snapshot.format.Returns ⟨7, 1.0 / 0.0, [⟨⟨3⟩, "crate", none, 0, 5, true, [⟨⟨9⟩, "fuse", .new⟩]⟩]⟩ := by
  obtain ⟨events, -, snapshots, -⟩ := documents_round_trip
  constructor
  · refine (events _ ?_).1
    simp only [Event.format, Event.numbers]
    decide
  · refine mt (snapshots _ ?_).1.1 (by decide +kernel)
    refine ⟨by decide, ?_⟩
    simp [EntitySnapshot.InRange, ComponentSnapshot.InRange, UInt64.size]

end FrameChain
