import FrameChain.Proofs.Chain.Built
import FrameChain.Proofs.Chain.Unfolding

set_option autoImplicit false

/-! A pass over a command ends when the cursor leaves it forward. A pass over the beginning of a
repetition lasts as long as the repetition does. -/
namespace FrameChain

open Chain ChainRun

variable {κ ω α υ : Type}

def Command.kept? (command : Command κ ω α) (part : Part) : Option Datum :=
  (command.param? part).bind (·.cached)

theorem Command.kept?_reset (command : Command κ ω α) (part : Part) : command.reset.kept? part = none := by
  have hcached {τ : Type} (lazy : Option (Lazy ω τ)) (wrap : τ → Datum) :
      ((lazy.map Lazy.reset).map (Lazy.map wrap)).bind (·.cached) = none := by cases lazy <;> rfl
  cases command with
  | addComponent source target | removeComponent selector target | removeEntity target =>
    cases part
    · rfl
    · exact hcached target .entity
  | _ => cases part <;> rfl

namespace Chain

variable {c d : Chain κ ω α} {id : NodeId}

theorem kept?_of_command {command : Command κ ω α} (h : c.command? id = some command) (part : Part) :
    c.kept? ⟨id, part⟩ = command.kept? part := by
  rw [kept?, param?, h]
  rfl

theorem kept?_congr (site : Site) (h : d.command? site.node = c.command? site.node) :
    d.kept? site = c.kept? site := by
  rw [kept?, kept?, param?, param?, h]

theorem kept?_of_steady {here : Node κ ω α} (hn : c.nodes[id]? = some here)
    (hs : here.command.Steady) (part : Part) : c.kept? ⟨id, part⟩ = none := by
  rw [kept?_of_command (command?_of_node hn), Command.kept?, hs.params]
  rfl

theorem kept?_placed {here : Node κ ω α} (hn : c.nodes[id]? = some here) (command : Command κ ω α)
    (scratch : Scratch) (part : Part) :
    (placed c id command scratch).kept? ⟨id, part⟩ = command.kept? part := by
  refine kept?_of_command ?_ part
  rw [command?_placed, if_pos rfl, command?_of_node hn, Option.map_some]

theorem kept?_placed_ne {site : Site} (hi : site.node ≠ id) (command : Command κ ω α)
    (scratch : Scratch) : (placed c id command scratch).kept? site = c.kept? site :=
  kept?_congr _ (by rw [command?_placed, if_neg (Ne.symm hi)])

/-- Nothing is kept but for the command under the cursor and the repetitions on the stack. -/
def Frugal (c : Chain κ ω α) : Prop :=
  ∀ site, c.kept? site ≠ none → c.current = some site.node ∨
    c.opcode? site.node = some .beginRepeat ∧ site.node ∈ c.scopes.entries

end Chain

/-- A parameter was not asked for in this part of a log, or it was asked for once and had not come to anything
before. -/
inductive Asked (site : Site) (log : List Sample) : Option Datum → Option Datum → Prop
  | kept {state : Option Datum} (h : ∀ x ∈ log, x.site ≠ site) : Asked site log state state
  | once {datum : Datum} (h : log.filter (fun x => x.site = site) = [⟨site, datum⟩]) :
      Asked site log none (some datum)

theorem Uses.site_eq {site : Site} {p p' : Option (Lazy ω Datum)} {log : List Sample}
    (h : Uses site p log p') : ∀ x ∈ log, x.site = site := by
  cases h with
  | absent | kept => simp
  | asked => simp

theorem Uses.asks {site : Site} {p p' : Option (Lazy ω Datum)} {log : List Sample}
    (h : Uses site p log p') : Asked site log (p.bind (·.cached)) (p'.bind (·.cached)) := by
  cases h with
  | absent => exact .kept (by simp)
  | kept => exact .kept (by simp)
  | asked hc =>
    rw [Option.bind_some, hc]
    exact .once (by simp)

theorem Asked.append {site : Site} {log more : List Sample} {state state' : Option Datum}
    (h : Asked site log state state') (hm : ∀ x ∈ more, x.site ≠ site) :
    Asked site (log ++ more) state state' ∧ Asked site (more ++ log) state state' := by
  have hnone : more.filter (fun x => x.site = site) = [] := by simpa using hm
  cases h with
  | kept h =>
    have hall : ∀ x, x ∈ log ∨ x ∈ more → x.site ≠ site := fun x hx => hx.elim (h x) (hm x)
    exact ⟨.kept fun x hx => hall x (List.mem_append.mp hx),
      .kept fun x hx => hall x (List.mem_append.mp hx).symm⟩
  | once h =>
    refine ⟨.once ?_, .once ?_⟩
    · rw [List.filter_append, h, hnone, List.append_nil]
    · rw [List.filter_append, h, hnone, List.nil_append]

theorem Errand.Visited.asks {id : NodeId} {e e' : Errand κ ω α} {log : List Sample}
    (h : e.Visited id log e') (part : Part) :
    Asked ⟨id, part⟩ log (e.command.kept? part) (e'.command.kept? part) := by
  obtain ⟨aims, mains, rfl, haims, hmains⟩ := h.uses
  cases part with
  | target =>
    refine (haims.asks.append fun x hx => ?_).1
    rw [hmains.site_eq x hx]
    rintro ⟨⟩
  | main =>
    refine (hmains.asks.append fun x hx => ?_).2
    rw [haims.site_eq x hx]
    rintro ⟨⟩

theorem Errand.Visited.node_eq {id : NodeId} {e e' : Errand κ ω α} {log : List Sample}
    (h : e.Visited id log e') : ∀ x ∈ log, x.site.node = id := by
  obtain ⟨aims, mains, rfl, haims, hmains⟩ := h.uses
  intro x hx
  rcases List.mem_append.mp hx with hx | hx
  · rw [haims.site_eq x hx]
  · rw [hmains.site_eq x hx]

/-- The round ends the pass over a command: the step goes on from the command, or the end of a repetition
lets the cursor through. -/
inductive Round.Leaves (r : Round κ ω α) (id : NodeId) : Prop
  | forward (cursor : r.chain.current = some id) (code : r.chain.opcode? id ≠ some .beginRepeat)
      (answer : r.answer = .ok true)
  | through {closer : NodeId} {rest : List NodeId} (cursor : r.chain.current = some closer)
      (code : r.chain.opcode? closer = some .endRepeat) (top : r.chain.scopes.entries = id :: rest)
      (answer : r.answer = .ok true) (on : r.after.current ≠ some id)

structure Round.Repeats (r : Round κ ω α) (id : NodeId) : Prop where
  cursor : ∃ closer, r.chain.current = some closer ∧ r.chain.opcode? closer = some .endRepeat
  top : r.chain.scopes.entries.head? = some id
  back : r.after.current = some id

/-- The history of one parameter, with what it has come to in the pass so far. It is asked for only if it has
come to nothing. Then it stays as it is until the pass ends, unless it is the count of a repetition, which
goes down by one each time. -/
inductive SampleHistory (site : Site) : List (Round κ ω α × List Sample) → Option Datum → Prop
  | start : SampleHistory site [] none
  | stays {visits : List (Round κ ω α × List Sample)} {r : Round κ ω α} {log : List Sample}
      {state state' : Option Datum} (h : SampleHistory site visits state)
      (found : r.chain.kept? site = state) (asked : Asked site log state state')
      (within : ¬ r.Leaves site.node) : SampleHistory site (visits ++ [(r, log)]) state'
  | counts {visits : List (Round κ ω α × List Sample)} {r : Round κ ω α} {log : List Sample}
      {state : Option Datum} {n : UInt32} (h : SampleHistory site visits state)
      (found : r.chain.kept? site = state) (asked : Asked site log state (some (.count n)))
      (repeats : r.Repeats site.node) (more : 1 < n) :
      SampleHistory site (visits ++ [(r, log)]) (some (.count (n - 1)))
  | leaves {visits : List (Round κ ω α × List Sample)} {r : Round κ ω α} {log : List Sample}
      {state state' : Option Datum} (h : SampleHistory site visits state)
      (found : r.chain.kept? site = state) (asked : Asked site log state state')
      (left : r.Leaves site.node) : SampleHistory site (visits ++ [(r, log)]) none

section Passes

variable {r : Round κ ω α} {id : NodeId} {here : Node κ ω α} {log : List Sample} {site : Site}
  {visits : List (Round κ ω α × List Sample)}

theorem Round.Leaves.answer_eq (h : r.Leaves id) : r.answer = .ok true := by
  cases h with
  | forward _ _ answer | through _ _ _ answer _ => exact answer

/-- A round that runs a command can end the pass over another only if the command is the end of a repetition
and the other one its beginning. -/
theorem Round.Leaves.elsewhere {i : NodeId} (h : r.Leaves i) (hi : i ≠ id)
    (hcur : r.chain.current = some id) : r.chain.opcode? id = some .endRepeat ∧
      r.chain.scopes.entries.head? = some i ∧ r.after.current ≠ some i := by
  cases h with
  | forward cursor => exact absurd (Option.some.inj (cursor.symm.trans hcur)) hi
  | through cursor code top _ on =>
    obtain rfl := Option.some.inj (cursor.symm.trans hcur)
    exact ⟨code, by rw [top]; rfl, on⟩

theorem Round.Leaves.code_ne (h : r.Leaves id) (hcur : r.chain.current = some id) :
    r.chain.opcode? id ≠ some .beginRepeat := by
  cases h with
  | forward _ code => exact code
  | through cursor code =>
    obtain rfl := Option.some.inj (cursor.symm.trans hcur)
    rw [code]
    rintro ⟨⟩

theorem SampleHistory.untouched (h : SampleHistory site visits (r.chain.kept? site))
    (hlog : ∀ x ∈ log, x.site ≠ site) (hkept : r.after.kept? site = r.chain.kept? site)
    (hleaves : r.Leaves site.node → r.chain.kept? site = none) :
    SampleHistory site (visits ++ [(r, log)]) (r.after.kept? site) := by
  rw [hkept]
  by_cases hl : r.Leaves site.node
  · rw [hleaves hl]
    exact h.leaves rfl (.kept hlog) hl
  · exact h.stays rfl (.kept hlog) hl

theorem SampleHistory.other (h : SampleHistory site visits (r.chain.kept? site))
    (hcur : r.chain.current = some id) (hi : site.node ≠ id) (hlog : ∀ x ∈ log, x.site.node = id)
    (hkept : r.after.kept? site = r.chain.kept? site) (hcode : r.chain.opcode? id ≠ some .endRepeat) :
    SampleHistory site (visits ++ [(r, log)]) (r.after.kept? site) := by
  refine h.untouched (fun x hx heq => hi ?_) hkept fun hl => absurd (hl.elsewhere hi hcur).1 hcode
  rw [← heq, hlog x hx]

/-- A command that asks for its own parameters: they are kept as they have come out, or the pass ends. -/
theorem SampleHistory.sampled {command command' : Command κ ω α}
    (h : SampleHistory site visits (r.chain.kept? site)) (hcur : r.chain.current = some id)
    (hn : r.chain.nodes[id]? = some here) (hcode : here.command.opcode ≠ .endRepeat)
    (hlog : ∀ x ∈ log, x.site.node = id)
    (hasked : ∀ part, Asked ⟨id, part⟩ log (here.command.kept? part) (command.kept? part))
    (hnode : r.after.command? = (placed r.chain id command' {}).command?)
    (hend : ¬ r.Leaves id ∧ command' = command ∨ r.Leaves id ∧ command' = command.reset) :
    SampleHistory site (visits ++ [(r, log)]) (r.after.kept? site) := by
  obtain ⟨i, part⟩ := site
  by_cases hi : i = id
  · subst hi
    have hfound : r.chain.kept? ⟨i, part⟩ = here.command.kept? part :=
      kept?_of_command (command?_of_node hn) part
    have hafter : r.after.kept? ⟨i, part⟩ = command'.kept? part :=
      (kept?_congr _ (congrFun hnode i)).trans (kept?_placed hn command' {} part)
    rw [hafter]
    rcases hend with ⟨hwithin, rfl⟩ | ⟨hleft, rfl⟩
    · exact h.stays rfl (hfound ▸ hasked part) hwithin
    · rw [Command.kept?_reset]
      exact h.leaves rfl (hfound ▸ hasked part) hleft
  · refine h.other hcur hi hlog ?_ ?_
    · exact (kept?_congr _ (congrFun hnode i)).trans (kept?_placed_ne hi command' {})
    · rw [opcode?_eq, command?_of_node hn]
      exact fun heq => hcode (Option.some.inj heq)

theorem SampleHistory.visited {e : Errand κ ω α} {v : Visit κ ω α}
    (h : SampleHistory site visits (r.chain.kept? site)) (hcur : r.chain.current = some id)
    (hn : r.chain.nodes[id]? = some here) (hc : e.command = here.command)
    (hv : e.Visited id log v.errand) (hturned : v.turned r.chain id = (r.answer, r.after)) :
    SampleHistory site (visits ++ [(r, log)]) (r.after.kept? site) := by
  have hcode (opcode : Opcode) (hk : opcode.kind ≠ .plain) : here.command.opcode ≠ opcode := by
    rintro rfl
    exact hk (hc ▸ e.kind_command)
  have hafter : r.after = (v.turned r.chain id).2 := (congrArg Prod.snd hturned).symm
  have hanswer : (v.turned r.chain id).1 = r.answer := congrArg Prod.fst hturned
  have hasked (part : Part) := hv.asks part
  rw [hc] at hasked
  have hopcode : r.chain.opcode? id ≠ some .beginRepeat := by
    rw [opcode?_eq, command?_of_node hn]
    exact fun heq => hcode .beginRepeat (by rintro ⟨⟩) (Option.some.inj heq)
  have hend : here.command.opcode ≠ .endRepeat := hcode .endRepeat (by rintro ⟨⟩)
  cases v with
  | finished e' =>
    have hnode : r.after.command? = (placed r.chain id e'.fresh.command {}).command? := by
      rw [hafter]
      rfl
    exact h.sampled hcur hn hend hv.node_eq hasked hnode
      (.inr ⟨.forward hcur hopcode hanswer.symm, e'.command_fresh⟩)
  | waiting e' | failed f e' =>
    have hnode : r.after.command? = (placed r.chain id e'.command {}).command? := by
      rw [hafter]
      rfl
    refine h.sampled hcur hn hend hv.node_eq hasked hnode (.inl ⟨fun hl => ?_, rfl⟩)
    cases hanswer.trans hl.answer_eq

theorem Lazy.Gives.asks {lazy : Lazy ω υ} {a : υ} (h : lazy.Gives a) (wrap : υ → Datum) (id : NodeId)
    {command command' : Command κ ω α} (hmain : command.param? .main = some (lazy.map wrap))
    (hmain' : command'.param? .main = some ((lazy.keeping a).map wrap))
    (htarget : command.param? .target = none) (htarget' : command'.param? .target = none) (part : Part) :
    Asked ⟨id, part⟩ (lazy.entry wrap ⟨id, .main⟩ a) (command.kept? part) (command'.kept? part) := by
  have huses := h.uses wrap ⟨id, .main⟩
  cases part with
  | main =>
    rw [Command.kept?, Command.kept?, hmain, hmain']
    exact huses.asks
  | target =>
    rw [Command.kept?, Command.kept?, htarget, htarget']
    refine .kept fun x hx => ?_
    rw [huses.site_eq x hx]
    rintro ⟨⟩

/-- The end of a repetition asks for nothing but the count, and only if that has come to nothing. -/
theorem SampleHistory.counted {opener : NodeId} {rest : List NodeId} {opening : Node κ ω α}
    {times : Lazy ω UInt32} {command : Command κ ω α} {n : UInt32}
    (h : SampleHistory site visits (r.chain.kept? site)) (hcur : r.chain.current = some id)
    (hn : r.chain.nodes[id]? = some here) (hc : here.command = .endRepeat)
    (hs : r.chain.scopes.entries = opener :: rest) (ho : r.chain.nodes[opener]? = some opening)
    (hr : opening.command = .beginRepeat times false) (hg : times.Gives n)
    (hnode : r.after.command? = (placed r.chain opener command {}).command?)
    (hcount : site = ⟨opener, .main⟩ → Asked site (times.entry .count ⟨opener, .main⟩ n)
      (r.chain.kept? site) (some (.count n)) → SampleHistory site
        (visits ++ [(r, times.entry .count ⟨opener, .main⟩ n)]) (command.kept? .main))
    (htarget : command.param? .target = none) :
    SampleHistory site (visits ++ [(r, times.entry .count ⟨opener, .main⟩ n)]) (r.after.kept? site) := by
  have huses := hg.uses Datum.count ⟨opener, .main⟩
  obtain ⟨i, part⟩ := site
  by_cases hi : i = opener
  · subst hi
    have hfound (part : Part) : r.chain.kept? ⟨i, part⟩ = opening.command.kept? part :=
      kept?_of_command (command?_of_node ho) part
    have hafter : r.after.kept? ⟨i, part⟩ = command.kept? part :=
      (kept?_congr _ (congrFun hnode i)).trans (kept?_placed ho command {} part)
    cases part with
    | main =>
      rw [hafter]
      refine hcount rfl ?_
      rw [hfound, hr]
      exact huses.asks
    | target =>
      have hnone : r.chain.kept? ⟨i, .target⟩ = none := by
        rw [hfound, hr]
        rfl
      refine h.untouched (fun x hx heq => ?_) ?_ fun _ => hnone
      · rw [huses.site_eq x hx] at heq
        cases heq
      · rw [hafter, hnone, Command.kept?, htarget]
        rfl
  · refine h.untouched (fun x hx heq => hi ?_) ?_ fun hl => ?_
    · rw [huses.site_eq x hx] at heq
      exact (congrArg Site.node heq).symm
    · exact (kept?_congr _ (congrFun hnode i)).trans (kept?_placed_ne hi command {})
    · by_cases hid : i = id
      · subst hid
        exact kept?_of_steady hn (by rw [hc]; exact ⟨rfl, fun _ => rfl⟩) part
      · have htop := (hl.elsewhere hid hcur).2.1
        rw [hs] at htop
        exact absurd (Option.some.inj htop).symm hi

theorem SampleHistory.turned (h : SampleHistory site visits (r.chain.kept? site))
    (hcur : r.chain.current = some id) (hn : r.chain.nodes[id]? = some here)
    (hexit : here.command = .endRepeat → ∀ opener, r.chain.scopes.entries.head? = some opener →
      here.next ≠ some opener) (ht : Turned r.chain id here log r.answer r.after) :
    SampleHistory site (visits ++ [(r, log)]) (r.after.kept? site) := by
  have hcode : r.chain.opcode? id = some here.command.opcode := by
    rw [opcode?_eq, command?_of_node hn]
    rfl
  have hnode {υ : Type} {lazy : Lazy ω υ} {a : υ} (hg : lazy.Gives a) (wrap : υ → Datum) :
      ∀ x ∈ lazy.entry wrap ⟨id, .main⟩ a, x.site.node = id := fun x hx => by
    rw [(hg.uses wrap ⟨id, .main⟩).site_eq x hx]
  generalize ha : r.answer = answer at ht
  generalize hd : r.after = d at ht
  cases ht with
  | visited hc hs hv => exact hd ▸ h.visited hcur hn hc hv (by rw [ha, hd])
  | repeats hc hg =>
    rw [← hd]
    refine h.sampled hcur hn (by rw [hc]; rintro ⟨⟩) (hnode hg .count)
      (hg.asks .count id (by rw [hc]; rfl) rfl (by rw [hc]; rfl) rfl) (by rw [hd]; rfl)
      (.inl ⟨fun hl => hl.code_ne hcur ?_, rfl⟩)
    rw [hcode, hc]
    rfl
  | pauses hc hg =>
    rw [← hd]
    refine h.sampled hcur hn (by rw [hc]; rintro ⟨⟩) (hnode hg .seconds)
      (hg.asks .seconds id (by rw [hc]; rfl) rfl (by rw [hc]; rfl) rfl) (by rw [hd]; rfl)
      (.inl ⟨fun hl => ?_, rfl⟩)
    cases ha.symm.trans hl.answer_eq
  | @enters seconds limit _ hc hg =>
    rw [← hd]
    have hasked (part : Part) : Asked ⟨id, part⟩ (seconds.entry .seconds ⟨id, .main⟩ limit)
        (here.command.kept? part)
        ((.beginInterval (seconds.keeping limit) : Command κ ω α).kept? part) :=
      hg.asks .seconds id (by rw [hc]; rfl) rfl (by rw [hc]; rfl) rfl part
    have hafter : r.after.command? = (placed r.chain id (.beginInterval seconds.reset) {}).command? := by
      rw [hd]
      rfl
    refine h.sampled hcur hn (by rw [hc]; rintro ⟨⟩) (hnode hg .seconds) hasked hafter
      (.inr ⟨.forward hcur ?_ ha, rfl⟩)
    rw [hcode, hc]
    rintro ⟨⟩
  | again hc hs ho hr hg hmore =>
    rw [← hd]
    refine h.counted hcur hn hc hs ho hr hg (by rw [hd]; rfl) (fun hsite hasked => ?_) rfl
    subst hsite
    exact h.counts rfl hasked ⟨⟨id, hcur, by rw [hcode, hc]; rfl⟩, by rw [hs]; rfl, by rw [hd]⟩ hmore
  | @through opener rest _ _ _ hc hs ho hr hg =>
    rw [← hd]
    refine h.counted hcur hn hc hs ho hr hg (by rw [hd]; rfl) (fun hsite hasked => ?_) rfl
    subst hsite
    -- The pass over the opener ends here.
    refine h.leaves rfl hasked (.through hcur (by rw [hcode, hc]; rfl) hs ha ?_)
    rw [hd]
    exact hexit hc opener (by rw [hs]; rfl)
  | @steers _ scopes current hp hc hb hs =>
    rw [← hd]
    refine h.untouched (fun x hx => absurd hx List.not_mem_nil) (by rw [hd]; rfl) fun hl => ?_
    by_cases hi : site.node = id
    · obtain ⟨i, part⟩ := site
      obtain rfl : i = id := hi
      rw [kept?_of_command (command?_of_node hn), Command.kept?, hp]
      rfl
    -- A pass over another command ends only where a repetition lets the cursor through.
    · obtain ⟨hend, htop, hon⟩ := hl.elsewhere hi hcur
      obtain ⟨opener, rest, hentries, hback⟩ :=
        hb (Option.some.inj (hcode.symm.trans hend)) (ha.symm.trans hl.answer_eq)
      rw [hentries] at htop
      rw [hd] at hon
      exact absurd (hback.trans htop) hon

variable {c d : Chain κ ω α}

theorem Chain.Frugal.elsewhere (h : c.Frugal) (site : Site) (hcur : c.current = some id) (hi : site.node ≠ id)
    (hk : c.kept? site ≠ none) :
    c.opcode? site.node = some .beginRepeat ∧ site.node ∈ c.scopes.entries := by
  refine (h site hk).resolve_left fun heq => hi ?_
  exact Option.some.inj (heq.symm.trans hcur)

theorem Chain.Frugal.placed {place : NodeId} {there : Node κ ω α} (command : Command κ ω α)
    (h : c.Frugal) (hcur : c.current = some id) (hn : c.nodes[id]? = some here)
    (hp : c.nodes[place]? = some there) (hhere : place = id ∨ here.command.Steady)
    (hd : d.command? = (placed c place command {}).command?)
    (hs : ∀ i ≠ place, i ∈ c.scopes.entries → i ∈ d.scopes.entries)
    (hself : (∀ part, command.kept? part = none) ∨ d.current = some place ∨
      command.opcode = .beginRepeat ∧ place ∈ d.scopes.entries) : d.Frugal := by
  intro site hk
  obtain ⟨i, part⟩ := site
  by_cases hi : i = place
  · subst hi
    have hkept : d.kept? ⟨i, part⟩ = command.kept? part :=
      (kept?_congr _ (congrFun hd i)).trans (kept?_placed hp command {} part)
    rcases hself with hnone | hcur' | ⟨hcode, hmem⟩
    · exact absurd (hkept.trans (hnone part)) hk
    · exact .inl hcur'
    · refine .inr ⟨?_, hmem⟩
      rw [opcode?_eq, congrFun hd, command?_placed, if_pos rfl, command?_of_node hp, Option.map_some,
        Option.map_some, hcode]
  · have hsame : d.command? i = c.command? i := by
      rw [congrFun hd, command?_placed, if_neg (Ne.symm hi)]
    rw [kept?_congr ⟨i, part⟩ hsame] at hk
    have hid : i ≠ id := by
      rintro rfl
      rcases hhere with rfl | hsteady
      · exact hi rfl
      · exact hk (kept?_of_steady hn hsteady part)
    obtain ⟨hcode, hmem⟩ := h.elsewhere ⟨i, part⟩ hcur hid hk
    exact .inr ⟨by rw [opcode?_eq, hsame, ← opcode?_eq, hcode], hs i hi hmem⟩

/-- What a turn keeps. A repetition goes off the stack only when it forgets its count or the cursor goes back
to it, if the end of the block is not refused. -/
theorem Turned.frugal {answer : Except Failure Bool} (h : Turned c id here log answer d)
    (hcur : c.current = some id) (hn : c.nodes[id]? = some here) (hf : c.Frugal)
    (hblame : ∀ f, answer = .error f → f.isScope = true → ∃ action,
      d.currentCommand? = some (.call action)) : d.Frugal := by
  have hend (hc : here.command = .endRepeat) : here.command.Steady :=
    Command.steady_of_closer (by rw [hc]; rfl)
  have hpop {opener : NodeId} {rest : List NodeId} (hs : c.scopes.entries = opener :: rest) :
      ∀ i ≠ opener, i ∈ c.scopes.entries → i ∈ rest := fun i hi hmem =>
    (List.mem_cons.mp (hs ▸ hmem)).resolve_left hi
  cases h with
  | @visited e v _ hc hs hv =>
    cases v with
    | finished e' =>
      refine hf.placed e'.fresh.command hcur hn hn (.inl rfl) rfl (fun i _ hi => hi)
        (.inl fun part => ?_)
      rw [e'.command_fresh, Command.kept?_reset]
    | waiting e' | failed f e' =>
      exact hf.placed _ hcur hn hn (.inl rfl) rfl (fun i _ hi => hi) (.inr (.inl hcur))
  | repeats =>
    exact hf.placed _ hcur hn hn (.inl rfl) rfl (fun i _ hi => List.mem_cons_of_mem _ hi)
      (.inr (.inr ⟨rfl, List.mem_cons_self⟩))
  | pauses => exact hf.placed _ hcur hn hn (.inl rfl) rfl (fun i _ hi => hi) (.inr (.inl hcur))
  | @enters seconds =>
    exact hf.placed _ hcur hn hn (.inl rfl) rfl (fun i _ hi => List.mem_cons_of_mem _ hi)
      (.inl (Command.kept?_reset (.beginInterval seconds)))
  | again hc hs ho => exact hf.placed _ hcur hn ho (.inr (hend hc)) rfl (hpop hs) (.inr (.inl rfl))
  | @through _ _ _ times _ hc hs ho =>
    exact hf.placed _ hcur hn ho (.inr (hend hc)) rfl (hpop hs)
      (.inl (Command.kept?_reset (.beginRepeat times false)))
  | @steers _ scopes current hp hc hb hs =>
    rintro ⟨i, part⟩ hk
    have hid : i ≠ id := by
      rintro rfl
      refine hk ((kept?_of_command (command?_of_node hn) part).trans ?_)
      rw [Command.kept?, hp]
      rfl
    obtain ⟨hcode, hmem⟩ := hf.elsewhere ⟨i, part⟩ hcur hid hk
    obtain hin | hback | ⟨hk', f, rfl, hscope⟩ := hs i hmem hcode
    · exact .inr ⟨hcode, hin⟩
    · exact .inl hback
    · obtain ⟨action, haction⟩ := hblame f rfl hscope
      have hcommand : Chain.currentCommand? { c with scopes, current } = some here.command := by
        rw [currentCommand?, hc.resolve_left (by rintro ⟨⟩), hcur, Option.bind_some, hn, Option.map_some]
      rw [Option.some.inj (hcommand.symm.trans haction)] at hk'
      cases hk'

end Passes

section Histories

variable {act : α → Caller → Script κ ω (Except Failure Unit)} {caller : Caller}
  {r : Round κ ω α} {log : List Sample} {site : Site} {visits : List (Round κ ω α × List Sample)}
  {l : List Entry} {depth : Nat}

theorem next_ne_opener {c : Chain κ ω α} {id opener : NodeId} {here : Node κ ω α} (h : Placed l c)
    (hl : Nested Prod.snd depth l) (hrun : c.isRunning = true) (hcur : c.current = some id)
    (hn : c.nodes[id]? = some here) (hc : here.command = .endRepeat)
    (ho : c.scopes.entries.head? = some opener) : here.next ≠ some opener := by
  obtain ⟨before, rest, hcut, hcur', hs⟩ := h.stands hrun
  cases rest with
  | nil => cases hcur.symm.trans hcur'
  | cons e rest =>
    obtain ⟨i, op⟩ := e
    obtain rfl : id = i := Option.some.inj (hcur.symm.trans hcur')
    have hop : op = .endRepeat := by
      have hmem : (id, op) ∈ c.listing := by simp [h.listing, hcut]
      have hcode := opcode?_of_mem_listing hmem
      rw [opcode?_eq, command?_of_node hn, hc] at hcode
      exact (Option.some.inj hcode).symm
    obtain ⟨outer, body, e', rfl, -, -, htop⟩ :=
      h.opener_of_closer hl hcut hs (by rw [hop]; rfl)
    rw [htop] at ho
    obtain rfl := Option.some.inj ho
    have hnext := h.next hcut
    rw [next?, hn, Option.bind_some] at hnext
    rw [hnext]
    have hd : (l.map Prod.fst).Nodup := h.listing ▸ h.threaded.distinct
    rw [hcut] at hd
    intro heq
    cases rest with
    | nil => cases heq
    | cons e rest =>
      have heq : e.1 = e'.1 := Option.some.inj heq
      rw [List.map_append, List.map_append, List.map_cons, List.map_cons, List.map_cons, heq,
        List.nodup_append] at hd
      exact hd.2.2 e'.1 (by simp) e'.1 (by simp) rfl

theorem SampleHistory.round (h : SampleHistory site visits (r.chain.kept? site)) (hp : Placed l r.chain)
    (hl : Nested Prod.snd depth l) (hrun : r.chain.isRunning = true)
    (hr : Rounded r.chain log r.answer r.after) :
    SampleHistory site (visits ++ [(r, log)]) (r.after.kept? site) := by
  generalize ha : r.answer = answer at hr
  generalize hd : r.after = d at hr
  cases hr with
  | rests hne hafter =>
    rw [← hd]
    refine h.untouched (fun x hx => absurd hx List.not_mem_nil) (kept?_congr _ ?_) fun hl => ?_
    · rcases hafter with rfl | rfl
      · rw [hd]
      · rw [hd]
        rfl
    · exact absurd (ha.symm.trans hl.answer_eq) hne
  | turned hcur hn ht =>
    rw [← hd]
    exact h.turned hcur hn (fun hc opener ho => next_ne_opener hp hl hrun hcur hn hc ho)
      (by rw [ha, hd]; exact ht)

theorem Round.Happens.frugal [Named κ] (hr : r.Happens act caller) (hp : Placed l r.chain)
    (hl : Nested Prod.snd depth l) (hrun : r.chain.isRunning = true)
    (hf : r.chain.Frugal) (hout : Rounded r.chain log r.answer r.after)
    (hopen : r.after.finished = false) : r.after.Frugal := by
  have hends := hr.placed hl hp hrun
  generalize ha : r.answer = answer at hout
  generalize hd : r.after = d at hout
  rw [ha, hd] at hends
  cases hout with
  | rests hne hafter =>
    rcases hafter with rfl | rfl
    · exact hf
    · rw [hd] at hopen
      cases hopen
  | turned hcur hn ht =>
    refine ht.frugal hcur hn hf fun f he hscope => ?_
    subst he
    obtain ⟨action, haction, -⟩ := hends.2 hscope
    exact ⟨action, haction⟩

end Histories

theorem command?_direct (name : String) (interrupts : List (HostFun ω Bool))
    (commands : List (Command κ ω α)) (id : NodeId) :
    (direct name interrupts commands).command? id = commands[id]? := by
  rw [direct, foldl_append_eq]
  change (arena (bare commands))[id]?.map (·.command) = _
  rw [getElem?_arena, bare, List.getElem?_map, Option.map_map, Option.map_map]
  cases commands[id]? <;> rfl

theorem kept?_direct (name : String) (interrupts : List (HostFun ω Bool)) {commands : List (Command κ ω α)}
    (hfresh : ∀ command ∈ commands, command.reset = command) (site : Site) :
    (direct name interrupts commands).kept? site = none := by
  obtain ⟨i, part⟩ := site
  cases hi : commands[i]? with
  | none =>
    rw [kept?, param?, command?_direct, hi]
    rfl
  | some command =>
    rw [kept?_of_command ((command?_direct name interrupts commands i).trans hi),
      ← hfresh command (List.mem_of_getElem? hi), Command.kept?_reset]

variable [Named κ]

/-- A chain of well-nested commands, however it was built, asks in each round for the parameters of a log. It
asks for each parameter at most once in a pass, and keeps what it has come to until the pass ends. Between any
two rounds only the command under the cursor and the repetitions that it stands in keep anything. -/
theorem sampling_history (act : α → Caller → Script κ ω (Except Failure Unit)) {built c : Chain κ ω α}
    (hb : Lived act built) (hs : built.started = false) {depth : Nat}
    (hn : Nested Command.opcode depth built.commands) (hfresh : ∀ site, built.kept? site = none)
    {caller : Caller} {rounds : List (Round κ ω α)} {σ : Setting κ ω} {now : Option Seconds}
    (h : Unfolds act caller built rounds c σ now) :
    (∃ logs, List.Forall₂ (fun r log => r.Asks act caller log) rounds logs ∧
      ∀ site, SampleHistory site (rounds.zip logs) (c.kept? site)) ∧
    (c.finished = false → c.Frugal) := by
  have hl : Nested Prod.snd depth built.listing := nested_listing hn
  have hstart : Placed built.listing built := hb.placed hs
  refine (h.along (P := fun rounds c => (∃ logs,
    List.Forall₂ (fun r log => r.Asks act caller log) rounds logs ∧
      ∀ site, SampleHistory site (rounds.zip logs) (c.kept? site)) ∧
    (c.finished = false → c.Frugal)) hb.neat ?_ ?_ ?_).2
  · refine ⟨⟨[], .nil, fun site => ?_⟩, fun _ site hk => absurd (hfresh site) hk⟩
    rw [hfresh]
    exact .start
  · rintro rounds c d ⟨⟨logs, hlogs, hsites⟩, hf⟩ hneat - hbides
    have hkept (site : Site) : d.kept? site = c.kept? site := kept?_congr _ (congrFun hbides.commands _)
    refine ⟨⟨logs, hlogs, fun site => by rw [hkept]; exact hsites site⟩, fun hopen site hk => ?_⟩
    rw [hkept] at hk
    obtain ⟨hopen', hcursor⟩ := hbides.cursor hopen
    rcases hf hopen' site hk with hcur | ⟨hcode, hmem⟩
    · exact .inl ((hcursor (hneat.running hcur).1).trans hcur)
    · refine .inr ⟨?_, by rwa [hbides.scopes hopen]⟩
      rw [opcode?_eq, congrFun hbides.commands, ← opcode?_eq, hcode]
  · rintro rounds r hunfolds ⟨⟨logs, hlogs, hsites⟩, hf⟩ hneat hr
    obtain ⟨hplaced, hrunning⟩ := hunfolds.placed hl hstart
    have hrun := hrunning rfl
    obtain ⟨log, hasks, hout⟩ := hr.asks hneat
    refine ⟨⟨logs ++ [log], ?_, fun site => ?_⟩, fun hopen => ?_⟩
    · exact List.rel_append hlogs (.cons hasks .nil)
    · rw [List.zip_append hlogs.length_eq]
      exact (hsites site).round hplaced hl hrun hout
    · exact hr.frugal hplaced hl hrun (hf (hr.unfinished hneat hopen)) hout hopen

/-- Two rounds of a wait. The producer of their number counts its calls. -/
def chimes : List (Command Probe Nat Unit) :=
  [.beginRepeat ⟨.producer fun calls => (.ok 2, calls + 1), none⟩ false, .waitFrames ⟨.value 0, none⟩,
    .endRepeat]

def belfry : Setting Probe Nat :=
  ⟨((({} : Scene Probe).addEntity "host").2.addComponent ⟨1⟩ {}).2, 0⟩

/-- Two steps of the chain: it is in the second round of the repetition, whose number it has asked for once. -/
theorem sampling_history_chimes : ∃ rounds c σ, Unfolds (fun _ _ => .done (.ok ())) ⟨⟨1⟩, ⟨1⟩⟩
    (direct "chimes" [] chimes) rounds c σ none ∧ σ.world = 1 ∧
      c.kept? ⟨0, .main⟩ = some (.count 1) ∧ c.finished = false ∧ c.Frugal := by
  have hsteps : ∃ c c' σ σ',
      (Chain.behaviour (fun _ _ => .done (.ok ())) 9 (.update 1 1) ⟨⟨1⟩, ⟨1⟩⟩
        (direct "chimes" [] chimes)).run ⟨⟨1⟩, ⟨1⟩⟩ belfry =
          (.ok (.ok (), c), σ) ∧
        (Chain.behaviour (fun _ _ => .done (.ok ())) 9 (.update 1 2) ⟨⟨1⟩, ⟨1⟩⟩ c).run ⟨⟨1⟩, ⟨1⟩⟩ σ =
          (.ok (.ok (), c'), σ') ∧ σ'.world = 1 ∧ c'.kept? ⟨0, .main⟩ = some (.count 1) ∧
            c'.finished = false :=
    ⟨_, _, _, _, rfl, rfl, rfl, rfl, rfl⟩
  obtain ⟨c, c', σ, σ', hfirst, hsecond, hworld, hkept, hopen⟩ := hsteps
  obtain ⟨first, hfirst⟩ := (Unfolds.built belfry).update hfirst
  obtain ⟨second, hsecond⟩ := hfirst.update hsecond
  have hfresh : ∀ command ∈ chimes, command.reset = command := by
    simp [chimes, Command.reset, Lazy.reset]
  have hn : Nested Command.opcode 1 (direct "chimes" [] chimes).commands := by
    rw [commands_direct]
    exact .loop rfl (.plain rfl .nil) .nil
  exact ⟨_, c', σ', hsecond, hworld, hkept, hopen, (sampling_history _ (lived_direct "chimes" [] chimes) rfl hn
    (kept?_direct "chimes" [] hfresh) hsecond).2 hopen⟩

end FrameChain
