import FrameChain.Proofs.Chain.Samples

set_option autoImplicit false

namespace FrameChain

variable {κ ω α τ : Type}

def Param.MayBe (a : τ) : Param ω τ → Prop
  | value b => b = a
  | producer f => ∃ w, (f w).1 = .ok a

def Errand.suspends : Errand κ ω α → Bool
  | waitFrames .. | waitForMessage .. => true
  | _ => false

def Errand.outline (e : Errand κ ω α) : Errand κ ω α :=
  if e.suspends then .waitForMessage "" none none else .waitUntil fun w => (.ok false, w)

namespace Program

/-- Every way through the program leads past a wait for frames or for a message. The body of a loop is run
at least once. -/
def Suspends : Program κ ω α → Prop
  | done => False
  | simple e next => e.suspends = true ∨ next.Suspends
  | repeatTimes _ body next | doWhile _ body next | interval _ body next => body.Suspends ∨ next.Suspends
  | ifThen _ _ next | ifElse _ _ _ next => next.Suspends

/-- The loops of the program suspend, but for those that are certain to count down. -/
def Tame : Program κ ω α → Prop
  | done => True
  | simple _ next => next.Tame
  | repeatTimes times body next => (times.MayBe 0 → body.Suspends) ∧ body.Tame ∧ next.Tame
  | doWhile _ body next | interval _ body next => body.Suspends ∧ body.Tame ∧ next.Tame
  | ifThen _ yes next => yes.Tame ∧ next.Tame
  | ifElse _ yes no next => yes.Tame ∧ no.Tame ∧ next.Tame

def outline : Program κ ω α → Program κ ω α
  | done => done
  | simple e next => simple e.outline next.outline
  | repeatTimes times body next => repeatTimes times body.outline next.outline
  | doWhile holds body next => doWhile holds body.outline next.outline
  | interval seconds body next => interval seconds body.outline next.outline
  | ifThen holds yes next => ifThen holds yes.outline next.outline
  | ifElse holds yes no next => ifElse holds yes.outline no.outline next.outline

end Program

namespace Errand

theorem suspends_fresh (e : Errand κ ω α) : e.fresh.suspends = e.suspends := by cases e <;> rfl

theorem suspends_spent (e : Errand κ ω α) : e.spent.suspends = e.suspends := by
  cases e with
  | addComponent source target => cases source <;> rfl
  | waitForMembers quorum set ids => cases set <;> rfl
  | _ => rfl

theorem suspends_outline (e : Errand κ ω α) : e.outline.suspends = e.suspends := by
  rw [outline]
  cases e.suspends <;> rfl

theorem outline_eq_iff {e e' : Errand κ ω α} : e'.outline = e.outline ↔ e'.suspends = e.suspends := by
  refine ⟨fun h => ?_, fun h => by rw [outline, outline, h]⟩
  rw [← suspends_outline, h, suspends_outline]

variable [Named κ] {act : α → Caller → Script κ ω (Except Failure Unit)} {self : Caller}
  {absolute : Seconds} {name : String}

theorem suspends_visit {e : Errand κ ω α} {v : Visit κ ω α}
    (hr : (e.visit act self absolute name).Answers self v) : v.errand.suspends = e.suspends := by
  have hid : (({ name } : Chain κ ω α).append e.command).command? 0 = some e.command := rfl
  obtain ⟨σ, σ', hr⟩ := hr
  obtain ⟨log, -, hvisited⟩ := (accounts_visit act self absolute name e hid).tells hr
  rw [← suspends_fresh v.errand]
  rcases hvisited.fresh with h | h
  · rw [h, suspends_fresh]
  · rw [h, suspends_spent, suspends_fresh]

/-- Whoever comes to a wait for frames or for a message stays there for the frame. -/
theorem suspends_of_finished {e e' : Errand κ ω α}
    (hr : (e.fresh.visit act self absolute name).Answers self (.finished e')) : e.suspends = false := by
  cases e with
  | waitFrames frames waited =>
    obtain ⟨limit, -, hend⟩ := hr.exists_of_bind
    cases hend.eq_of_done
  | waitForMessage key condition arrived =>
    have hlistening (condition : Option (Lazy ω Condition)) (filter : Option Condition)
        (hr : (listening key condition filter none : Script κ ω (Visit κ ω α)).Answers self
          (.finished e')) : False := by
      obtain ⟨reply, -, hend⟩ := hr.exists_of_bind
      cases reply <;> cases hend.eq_of_done
    cases condition with
    | none => exact (hlistening none none hr).elim
    | some condition =>
      obtain ⟨filter, -, hend⟩ := hr.exists_of_bind
      exact (hlistening _ _ hend).elim
  | _ => rfl

end Errand

namespace Program

variable {p q : Program κ ω α}

theorem append_assoc (p q r : Program κ ω α) : (p.append q).append r = p.append (q.append r) := by
  induction p with
  | done => rfl
  | simple e next ih => simp only [append, ih]
  | repeatTimes times body next _ ih => simp only [append, ih]
  | doWhile holds body next _ ih => simp only [append, ih]
  | interval seconds body next _ ih => simp only [append, ih]
  | ifThen holds yes next _ ih => simp only [append, ih]
  | ifElse holds yes no next _ _ ih => simp only [append, ih]

theorem append_done (p : Program κ ω α) : p.append .done = p := by
  induction p with
  | done => rfl
  | simple e next ih => simp only [append, ih]
  | repeatTimes times body next _ ih => simp only [append, ih]
  | doWhile holds body next _ ih => simp only [append, ih]
  | interval seconds body next _ ih => simp only [append, ih]
  | ifThen holds yes next _ ih => simp only [append, ih]
  | ifElse holds yes no next _ _ ih => simp only [append, ih]

theorem outline_append (p q : Program κ ω α) :
    (p.append q).outline = p.outline.append q.outline := by
  induction p with
  | done => rfl
  | simple e next ih => simp only [append, outline, ih]
  | repeatTimes times body next _ ih => simp only [append, outline, ih]
  | doWhile holds body next _ ih => simp only [append, outline, ih]
  | interval seconds body next _ ih => simp only [append, outline, ih]
  | ifThen holds yes next _ ih => simp only [append, outline, ih]
  | ifElse holds yes no next _ _ ih => simp only [append, outline, ih]

theorem tame_append : (p.append q).Tame ↔ p.Tame ∧ q.Tame := by
  induction p with
  | done => simp only [append, Tame, true_and]
  | simple e next ih => simp only [append, Tame, ih]
  | repeatTimes times body next _ ih => simp only [append, Tame, ih, and_assoc]
  | doWhile holds body next _ ih => simp only [append, Tame, ih, and_assoc]
  | interval seconds body next _ ih => simp only [append, Tame, ih, and_assoc]
  | ifThen holds yes next _ ih => simp only [append, Tame, ih, and_assoc]
  | ifElse holds yes no next _ _ ih => simp only [append, Tame, ih, and_assoc]

theorem suspends_outline (p : Program κ ω α) : p.outline.Suspends ↔ p.Suspends := by
  induction p with
  | done => rfl
  | simple e next ih => simp only [outline, Suspends, ih, Errand.suspends_outline]
  | repeatTimes times body next ihb ih => simp only [outline, Suspends, ihb, ih]
  | doWhile holds body next ihb ih => simp only [outline, Suspends, ihb, ih]
  | interval seconds body next ihb ih => simp only [outline, Suspends, ihb, ih]
  | ifThen holds yes next _ ih => simp only [outline, Suspends, ih]
  | ifElse holds yes no next _ _ ih => simp only [outline, Suspends, ih]

theorem tame_outline (p : Program κ ω α) : p.outline.Tame ↔ p.Tame := by
  induction p with
  | done => rfl
  | simple e next ih => simp only [outline, Tame, ih]
  | repeatTimes times body next ihb ih => simp only [outline, Tame, suspends_outline, ihb, ih]
  | doWhile holds body next ihb ih => simp only [outline, Tame, suspends_outline, ihb, ih]
  | interval seconds body next ihb ih => simp only [outline, Tame, suspends_outline, ihb, ih]
  | ifThen holds yes next ihy ih => simp only [outline, Tame, ihy, ih]
  | ifElse holds yes no next ihy ihn ih => simp only [outline, Tame, ihy, ihn, ih]

theorem suspends_congr (h : q.outline = p.outline) : q.Suspends ↔ p.Suspends := by
  rw [← suspends_outline, h, suspends_outline]

theorem tame_congr (h : q.outline = p.outline) : q.Tame ↔ p.Tame := by
  rw [← tame_outline, h, tame_outline]

end Program

/-! ## Spots in a program -/

/-- Only a parameter that can be zero makes a count without end. -/
def Count.Justified (times : Param ω UInt32) (count : Count) : Prop :=
  count = .endless → times.MayBe 0

theorem Count.justified_of {times : Param ω UInt32} {n : UInt32} (h : times.MayBe n) :
    (Count.of n).Justified times := by
  intro heq
  by_cases hn : n = 0
  · rwa [← hn]
  · rw [Count.of, if_neg hn] at heq
    cases heq

theorem Count.Justified.next {times : Param ω UInt32} {count count' : Count}
    (h : count.Justified times) (hn : count.next = some count') : count'.Justified times := by
  cases count with
  | endless => exact fun _ => h rfl
  | left n =>
    rw [Count.next] at hn
    split at hn
    · cases hn
      rintro ⟨⟩
    · cases hn

def Block.Justified : Block κ ω α → Prop
  | repeatTimes times count => count.Justified times
  | _ => True

namespace Focus

def whole : Focus κ ω α → Program κ ω α
  | entering p => p
  | within e rest => .simple e rest
  | returning times _ body rest => .repeatTimes times body rest
  | pausing seconds _ _ body rest => .interval seconds body rest

def Justified : Focus κ ω α → Prop
  | returning times count _ _ => count.Justified times
  | _ => True

end Focus

def wrap : List (Level κ ω α) → Program κ ω α → Program κ ω α
  | [], body => body
  | f :: outer, body => wrap outer (f.before.append ((f.block.whole body).append f.after))

def Spot.whole (s : Spot κ ω α) : Program κ ω α := wrap s.levels (s.before.append s.focus.whole)

theorem Block.outline_whole {b : Block κ ω α} {p q : Program κ ω α} (h : q.outline = p.outline) :
    (b.whole q).outline = (b.whole p).outline := by
  cases b <;> simp only [Block.whole, Program.outline, h]

theorem outline_wrap {levels : List (Level κ ω α)} {p q : Program κ ω α} (h : q.outline = p.outline) :
    (wrap levels q).outline = (wrap levels p).outline := by
  induction levels generalizing p q with
  | nil => exact h
  | cons f outer ih =>
    refine ih ?_
    simp only [Program.outline_append, Block.outline_whole h]

theorem tame_of_wrap {levels : List (Level κ ω α)} {p : Program κ ω α} (h : (wrap levels p).Tame) :
    p.Tame := by
  induction levels generalizing p with
  | nil => exact h
  | cons f outer ih =>
    have hwhole := (Program.tame_append.mp (Program.tame_append.mp (ih h)).2).1
    cases hb : f.block with
    | repeatTimes times count =>
      rw [hb] at hwhole
      exact hwhole.2.1
    | doWhile holds =>
      rw [hb] at hwhole
      exact hwhole.2.1
    | interval seconds =>
      rw [hb] at hwhole
      exact hwhole.2.1
    | ifThen holds =>
      rw [hb] at hwhole
      exact hwhole.1
    | ifYes holds no =>
      rw [hb] at hwhole
      exact hwhole.1
    | ifNo holds yes =>
      rw [hb] at hwhole
      exact hwhole.2.1

/-! ## Every step comes to its end -/

theorem Param.mayBe_of_answers [Named κ] {self : Caller} {param : Param ω τ} {a : τ}
    (hr : (param.sample : Script κ ω τ).Answers self a) : param.MayBe a := by
  cases param with
  | value b => exact (hr.eq_of_done (a := b)).symm
  | producer f =>
    obtain ⟨σ, σ', hr⟩ := hr
    rw [sample, Script.run_host] at hr
    exact ⟨σ.world, congrArg Prod.fst hr⟩

def Visit.pace (before rest : Program κ ω α) (levels : List (Level κ ω α)) :
    Visit κ ω α → Pace κ ω α
  | .finished e => .on ⟨before.append (.simple e .done), .entering rest, levels⟩
  | .waiting e => .waiting ⟨before, .within e rest, levels⟩
  | .failed f e => .failed f ⟨before, .within e rest, levels⟩

namespace Spot

variable [Named κ] (act : α → Caller → Script κ ω (Except Failure Unit)) (self : Caller)
  (absolute : Seconds) (name : String)

/-- The interpreter goes through finitely many steps before it waits, fails or ends. -/
def Ceases (s : Spot κ ω α) : Prop :=
  Acc (fun s' s => (step act self absolute name s).Answers self (.on s')) s

variable {act self absolute name} {before rest : Program κ ω α} {levels : List (Level κ ω α)}

theorem ceases_of {s : Spot κ ω α}
    (h : ∀ s', (s.step act self absolute name).Answers self (.on s') → s'.Ceases act self absolute name) :
    s.Ceases act self absolute name := Acc.intro s h

theorem answers_visit {e : Errand κ ω α} {pace : Pace κ ω α}
    (hr : (visit act self absolute name before levels e rest).Answers self pace) :
    ∃ v, (e.visit act self absolute name).Answers self v ∧ pace = v.pace before rest levels := by
  obtain ⟨v, hv, hend⟩ := hr.exists_of_bind
  refine ⟨v, hv, ?_⟩
  cases v <;> exact hend.eq_of_done

theorem ceases_visit {e : Errand κ ω α}
    (hnext : ∀ e', (e.visit act self absolute name).Answers self (.finished e') →
      e'.outline = e.outline →
      Ceases act self absolute name ⟨before.append (.simple e' .done), .entering rest, levels⟩)
    {s' : Spot κ ω α} (hr : (visit act self absolute name before levels e rest).Answers self (.on s')) :
    s'.Ceases act self absolute name := by
  obtain ⟨v, hv, heq⟩ := answers_visit hr
  cases v with
  | finished e' =>
    cases heq
    exact hnext e' hv (Errand.outline_eq_iff.mpr (Errand.suspends_visit hv))
  | waiting e' => cases heq
  | failed f e' => cases heq

theorem ceases_branch {f : Level κ ω α} {body : Program κ ω α}
    (hclose : close levels body f = (return exit levels body f : Script κ ω (Pace κ ω α)))
    (hexit : Ceases act self absolute name
      ⟨f.before.append (f.block.whole body), .entering f.after, levels⟩) :
    Ceases act self absolute name ⟨body, .entering .done, f :: levels⟩ := by
  refine ceases_of fun s' hr => ?_
  change (close levels body f).Answers self _ at hr
  rw [hclose] at hr
  cases hr.eq_of_done
  exact hexit

end Spot

namespace Program

variable [Named κ] (act : α → Caller → Script κ ω (Except Failure Unit)) (self : Caller)
  (absolute : Seconds) (name : String)

/-- Whoever enters the program ceases, if it suspends or if he ceases at its end. -/
def Safe (p : Program κ ω α) : Prop :=
  ∀ (q before : Program κ ω α) (levels : List (Level κ ω α)), q.outline = p.outline →
    (q.Suspends ∨ ∀ r : Program κ ω α, r.outline = (before.append q).outline →
      Spot.Ceases act self absolute name ⟨r, .entering .done, levels⟩) →
    Spot.Ceases act self absolute name ⟨before, .entering q, levels⟩

variable {act self absolute name} {p q before next next' body : Program κ ω α}
  {levels : List (Level κ ω α)}

theorem Safe.behind (h : next.Safe act self absolute name) (hn : next'.outline = next.outline)
    {w : Program κ ω α} (hw : (w.append next').outline = q.outline)
    (hends : next'.Suspends ∨ ∀ r : Program κ ω α, r.outline = (before.append q).outline →
      Spot.Ceases act self absolute name ⟨r, .entering .done, levels⟩) :
    Spot.Ceases act self absolute name ⟨before.append w, .entering next', levels⟩ := by
  refine h next' _ levels hn (hends.imp_right fun hends r hr => hends r ?_)
  rw [hr, append_assoc, outline_append, hw, ← outline_append]

theorem Safe.ceases_repeat (h : body.Safe act self absolute name) {times : Param ω UInt32}
    (hexit : ∀ r : Program κ ω α, r.outline = body.outline →
      Spot.Ceases act self absolute name
        ⟨before.append (.repeatTimes times r .done), .entering next, levels⟩)
    (n : UInt32) (r : Program κ ω α) (hr : r.outline = body.outline) :
    Spot.Ceases act self absolute name
      ⟨r, .entering .done, ⟨before, .repeatTimes times (.left n), next⟩ :: levels⟩ := by
  induction hk : n.toNat using Nat.strongRecOn generalizing n r with
  | ind k ih =>
    refine Spot.ceases_of fun s' hs => ?_
    change (Spot.close levels r ⟨before, .repeatTimes times (.left n), next⟩).Answers self _ at hs
    by_cases hn : 1 < n
    · simp only [Spot.close, Count.next, if_pos hn] at hs
      cases hs.eq_of_done
      refine Spot.ceases_of fun s'' hs => ?_
      cases hs.eq_of_done
      refine h r .done _ hr (.inr fun r' hr' => ih (n - 1).toNat ?_ (n - 1) r' (hr'.trans hr) rfl)
      have hlt : 1 < n.toNat := UInt32.lt_iff_toNat_lt.mp hn
      have hsub : (n - 1).toNat = n.toNat - 1 :=
        UInt32.toNat_sub_of_le n 1 (UInt32.le_iff_toNat_le.mpr (Nat.le_of_lt hlt))
      omega
    · simp only [Spot.close, Count.next, if_neg hn] at hs
      cases hs.eq_of_done
      exact hexit r hr

theorem safe_done : (.done : Program κ ω α).Safe act self absolute name := by
  intro q before levels hq hends
  cases q with
  | done =>
    rcases hends with hsuspends | hends
    · exact hsuspends.elim
    · exact hends before (by rw [append_done])
  | _ => cases hq

theorem Safe.simple (h : next.Safe act self absolute name) (e : Errand κ ω α) :
    (.simple e next : Program κ ω α).Safe act self absolute name := by
  intro q before levels hq hends
  cases q with
  | simple e' next' =>
    simp only [outline, simple.injEq] at hq
    refine Spot.ceases_of fun s' hs => Spot.ceases_visit (fun e'' hv he => ?_) hs
    have hpasses := Errand.suspends_of_finished hv
    refine h.behind (q := .simple e' next') hq.2 ?_ (hends.imp_left fun hsuspends => ?_)
    · have hfresh := Errand.outline_eq_iff.mpr (Errand.suspends_fresh e')
      simp only [append, outline, he, hfresh]
    · exact hsuspends.resolve_left (by rw [hpasses]; exact Bool.false_ne_true)
  | _ => cases hq

theorem Safe.repeatTimes (hb : body.Safe act self absolute name) (h : next.Safe act self absolute name)
    {times : Param ω UInt32} (hz : times.MayBe 0 → body.Suspends) :
    (.repeatTimes times body next : Program κ ω α).Safe act self absolute name := by
  intro q before levels hq hends
  cases q with
  | repeatTimes times' body' next' =>
    simp only [outline, repeatTimes.injEq] at hq
    obtain ⟨rfl, hbody, hnext⟩ := hq
    refine Spot.ceases_of fun s' hs => ?_
    obtain ⟨n, hn, hs⟩ := Script.Answers.exists_of_bind hs
    cases hs.eq_of_done
    by_cases hsuspends : body'.Suspends
    · exact hb body' .done _ hbody (.inl hsuspends)
    have hpositive : n ≠ 0 := fun hzero =>
      hsuspends ((suspends_congr hbody).mpr (hz (hzero ▸ Param.mayBe_of_answers hn)))
    refine hb body' .done _ hbody (.inr fun r hr => ?_)
    rw [Count.of, if_neg hpositive]
    refine hb.ceases_repeat (fun r hr => ?_) n r (hr.trans hbody)
    refine h.behind (q := .repeatTimes times' body' next') hnext ?_
      (hends.imp_left fun hhere => hhere.resolve_left hsuspends)
    simp only [append, outline, hr, hbody]
  | _ => cases hq

theorem Safe.doWhile (hb : body.Safe act self absolute name) (hs : body.Suspends)
    (holds : HostFun ω Bool) (next : Program κ ω α) :
    (.doWhile holds body next : Program κ ω α).Safe act self absolute name := by
  intro q before levels hq _
  cases q with
  | doWhile holds' body' next' =>
    simp only [outline, doWhile.injEq] at hq
    refine Spot.ceases_of fun s' hr => ?_
    cases hr.eq_of_done
    exact hb body' .done _ hq.2.1 (.inl ((suspends_congr hq.2.1).mpr hs))
  | _ => cases hq

theorem Safe.interval (hb : body.Safe act self absolute name) (hs : body.Suspends)
    (seconds : Param ω Seconds) (next : Program κ ω α) :
    (.interval seconds body next : Program κ ω α).Safe act self absolute name := by
  intro q before levels hq _
  cases q with
  | interval seconds' body' next' =>
    simp only [outline, interval.injEq] at hq
    refine Spot.ceases_of fun s' hr => ?_
    obtain ⟨limit, -, hr⟩ := Script.Answers.exists_of_bind hr
    have hpace := hr.eq_of_done
    rw [Spot.pause] at hpace
    split at hpace
    · cases hpace
      exact hb body' .done _ hq.2.1 (.inl ((suspends_congr hq.2.1).mpr hs))
    · cases hpace
  | _ => cases hq

theorem Safe.ifThen {yes : Program κ ω α} (hy : yes.Safe act self absolute name)
    (h : next.Safe act self absolute name) (holds : HostFun ω Bool) :
    (.ifThen holds yes next : Program κ ω α).Safe act self absolute name := by
  intro q before levels hq hends
  cases q with
  | ifThen holds' yes' next' =>
    simp only [outline, ifThen.injEq] at hq
    obtain ⟨rfl, hyes, hnext⟩ := hq
    refine Spot.ceases_of fun s' hs => ?_
    have hbehind (r : Program κ ω α) (hr : r.outline = yes.outline) :
        Spot.Ceases act self absolute name
          ⟨before.append (.ifThen holds' r .done), .entering next', levels⟩ := by
      refine h.behind (q := .ifThen holds' yes' next') hnext ?_ hends
      simp only [append, outline, hr, hyes]
    obtain ⟨met, -, hs⟩ := Script.Answers.exists_of_bind hs
    cases met with
    | true =>
      cases hs.eq_of_done
      exact hy yes' .done _ hyes
        (.inr fun r hr => Spot.ceases_branch rfl (hbehind r (hr.trans hyes)))
    | false =>
      cases hs.eq_of_done
      exact hbehind yes' hyes
  | _ => cases hq

theorem Safe.ifElse {yes no : Program κ ω α} (hy : yes.Safe act self absolute name)
    (hn : no.Safe act self absolute name) (h : next.Safe act self absolute name)
    (holds : HostFun ω Bool) :
    (.ifElse holds yes no next : Program κ ω α).Safe act self absolute name := by
  intro q before levels hq hends
  cases q with
  | ifElse holds' yes' no' next' =>
    simp only [outline, ifElse.injEq] at hq
    obtain ⟨rfl, hyes, hno, hnext⟩ := hq
    refine Spot.ceases_of fun s' hs => ?_
    have hbehind (r r' : Program κ ω α) (hr : r.outline = yes.outline)
        (hr' : r'.outline = no.outline) :
        Spot.Ceases act self absolute name
          ⟨before.append (.ifElse holds' r r' .done), .entering next', levels⟩ := by
      refine h.behind (q := .ifElse holds' yes' no' next') hnext ?_ hends
      simp only [append, outline, hr, hyes, hr', hno]
    obtain ⟨met, -, hs⟩ := Script.Answers.exists_of_bind hs
    cases met with
    | true =>
      cases hs.eq_of_done
      exact hy yes' .done _ hyes
        (.inr fun r hr => Spot.ceases_branch rfl (hbehind r no' (hr.trans hyes) hno))
    | false =>
      cases hs.eq_of_done
      exact hn no' .done _ hno
        (.inr fun r hr => Spot.ceases_branch rfl (hbehind yes' r hyes (hr.trans hno)))
  | _ => cases hq

theorem Tame.safe (h : p.Tame) : p.Safe act self absolute name := by
  induction p with
  | done => exact safe_done
  | simple e next ih => exact (ih h).simple e
  | repeatTimes times body next ihb ih => exact (ihb h.2.1).repeatTimes (ih h.2.2) h.1
  | doWhile holds body next ihb _ => exact (ihb h.2.1).doWhile h.1 holds next
  | interval seconds body next ihb _ => exact (ihb h.2.1).interval h.1 seconds next
  | ifThen holds yes next ihy ih => exact (ihy h.1).ifThen (ih h.2) holds
  | ifElse holds yes no next ihy ihn ih => exact (ihy h.1).ifElse (ihn h.2.1) (ih h.2.2) holds

end Program

namespace Spot

variable [Named κ] {act : α → Caller → Script κ ω (Except Failure Unit)} {self : Caller}
  {absolute : Seconds} {name : String} {levels : List (Level κ ω α)}

/-- Whoever comes to the end of a block ceases, however deep in loops. -/
theorem ceases_closing {body : Program κ ω α} (ht : (wrap levels body).Tame)
    (hj : ∀ f ∈ levels, f.block.Justified) :
    Ceases act self absolute name ⟨body, .entering .done, levels⟩ := by
  induction levels generalizing body with
  | nil =>
    refine ceases_of fun s' hr => ?_
    cases hr.eq_of_done
  | cons f outer ih =>
    obtain ⟨before, block, after⟩ := f
    have hlevel : (before.append ((block.whole body).append after)).Tame := tame_of_wrap ht
    obtain ⟨-, hrest⟩ := Program.tame_append.mp hlevel
    obtain ⟨hwhole, hafter⟩ := Program.tame_append.mp hrest
    have houter (r : Program κ ω α)
        (hr : r.outline = (before.append ((block.whole body).append after)).outline) :
        Ceases act self absolute name ⟨r, .entering .done, outer⟩ :=
      ih ((Program.tame_congr (outline_wrap hr)).mpr ht) fun f hf => hj f (List.mem_cons_of_mem _ hf)
    have hexit (r : Program κ ω α) (hr : r.outline = body.outline) :
        Ceases act self absolute name ⟨before.append (block.whole r), .entering after, outer⟩ := by
      refine hafter.safe after _ outer rfl (.inr fun q hq => houter q ?_)
      rw [hq, Program.append_assoc]
      simp only [Program.outline_append, Block.outline_whole hr]
    have hagain : Ceases act self absolute name
        ⟨before, .entering ((block.whole body).append after), outer⟩ :=
      hrest.safe _ before outer rfl (.inr fun r hr => houter r hr)
    cases block with
    | repeatTimes times count =>
      cases count with
      | endless =>
        -- A count without end is one that may be zero, so the body suspends.
        have hzero := hj _ List.mem_cons_self rfl
        refine ceases_of fun s' hr => ?_
        cases hr.eq_of_done
        refine ceases_of fun s' hr => ?_
        cases hr.eq_of_done
        exact hwhole.2.1.safe body .done _ rfl (.inl (hwhole.1 hzero))
      | left n => exact (Program.Tame.safe hwhole.2.1).ceases_repeat hexit n body rfl
    | doWhile holds =>
      refine ceases_of fun s' hr => ?_
      obtain ⟨met, -, hr⟩ := Script.Answers.exists_of_bind hr
      cases met with
      | true =>
        cases hr.eq_of_done
        exact hagain
      | false =>
        cases hr.eq_of_done
        exact hexit body rfl
    | interval seconds =>
      refine ceases_of fun s' hr => ?_
      cases hr.eq_of_done
      exact hagain
    | ifThen holds => exact ceases_branch rfl (hexit body rfl)
    | ifYes holds no => exact ceases_branch rfl (hexit body rfl)
    | ifNo holds yes => exact ceases_branch rfl (hexit body rfl)

theorem ceases_entering {before p : Program κ ω α} (ht : (wrap levels (before.append p)).Tame)
    (hj : ∀ f ∈ levels, f.block.Justified) :
    Ceases act self absolute name ⟨before, .entering p, levels⟩ := by
  have hp : p.Tame := (Program.tame_append.mp (tame_of_wrap ht)).2
  refine hp.safe p before levels rfl (.inr fun r hr => ?_)
  exact ceases_closing ((Program.tame_congr (outline_wrap hr)).mpr ht) hj

theorem ceases {s : Spot κ ω α} (ht : s.whole.Tame) (hf : s.focus.Justified)
    (hj : ∀ f ∈ s.levels, f.block.Justified) : s.Ceases act self absolute name := by
  obtain ⟨before, focus, levels⟩ := s
  cases focus with
  | entering p => exact ceases_entering ht hj
  | within e rest =>
    refine ceases_of fun s' hr => ceases_visit (fun e' _ he => ceases_entering ?_ hj) hr
    refine (Program.tame_congr (outline_wrap ?_)).mpr ht
    simp only [Focus.whole, Program.append_assoc, Program.outline_append, Program.append,
      Program.outline, he]
  | returning times count body rest =>
    refine ceases_of fun s' hr => ?_
    cases hr.eq_of_done
    refine ceases_entering ht fun f hf' => ?_
    rcases List.mem_cons.mp hf' with rfl | hf'
    · exact hf
    · exact hj f hf'
  | pausing seconds limit since body rest =>
    refine ceases_of fun s' hr => ?_
    have hpace := hr.eq_of_done
    change _ = pause absolute before levels seconds limit since body rest at hpace
    rw [pause] at hpace
    split at hpace
    · cases hpace
      refine ceases_entering ht fun f hf' => ?_
      rcases List.mem_cons.mp hf' with rfl | hf'
      · trivial
      · exact hj f hf'
    · cases hpace

end Spot

end FrameChain
