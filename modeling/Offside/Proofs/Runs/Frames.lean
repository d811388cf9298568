import Offside.Proofs.Runs.Coverage
import Offside.Proofs.Runs.Histories

/-!
The scopes in which frames are opened. Whatever the program, the function that a call has found is
still bound on its level at all moments until the frame of the call is opened, however the arguments
are evaluated. A checker opens the frame of a function in the scope that it has just found. So the
levels and numbers of a store are in the order that the search for names relies on.
-/

namespace Offside

namespace Machine

variable {m m' : Machine} {scope : Scope}

theorem Keeps.stands (h : m.Keeps m') (hs : m.store.Stands scope) : m'.store.Stands scope :=
  hs.of_shape h.shape

theorem Leaves.stands {declared : Option String} (h : m.Leaves declared m')
    (hs : m.store.Stands scope) : m'.store.Stands scope := by
  cases declared with
  | none => exact Keeps.stands h hs
  | some name =>
    obtain ⟨m₁, entry, hk, hn, rfl⟩ := h
    have hs₁ := hk.stands hs
    have hd := Nat.lt_of_le_of_lt (Nat.zero_le _) hs₁.lt_depth
    exact hs₁.register (by rw [Store.register_eq hd, if_neg hn])

end Machine

/-- No level is dropped between one moment and what is entered from it. -/
theorem Store.Stands.along (limit : Nat) (scope : Scope) :
    Along limit fun m m' => m.store.Stands scope → m'.store.Stands scope where
  refl _ h := h
  trans h h' hs := h' (h hs)
  located _ _ h := h
  eval hd h := ((Expr.eval_tidy limit _ _ _).of_done hd).stands h
  exec hd h := by
    have hopen := Nat.lt_of_le_of_lt (Nat.zero_le _) h.lt_depth
    exact ((Stmt.exec_leaves limit _ _ _ hopen).of_done hd).stands h
  block hd h := ((Exec.tidy_block (Stmt.exec_contained limit _) _ _).of_done hd).stands h
  item {n name _ _ stmts m _} hd h := by
    have hblock := Exec.tidy_block (Stmt.exec_contained limit n) stmts
    exact ((Exec.tidy_item hblock name _ m).of_done hd).stands h
  newLevel _ h := h.pushLevel _
  register hr h := h.register hr
  frame {n _ args _ _ _ m _} _ hargs _ h := by
    have hk := (Exec.Tidy.closed.evalAll (Expr.eval_tidy limit n) args m).of_done hargs
    exact (hk.stands h).pushLevel _

namespace Store

/-- Whatever was done to the first store, more can be done in the way that is asked for that makes
it the second one. -/
def Leads (s s' : Store) : Prop :=
  ∀ ops scopes r, Reached ops ⟨s, scopes⟩ r →
    ∃ more scopes' r', Reached (ops ++ more) ⟨s', scopes'⟩ r'

namespace Leads

variable {s s' s'' : Store}

theorem refl (s : Store) : s.Leads s :=
  fun ops scopes r h => ⟨[], scopes, r, by rwa [List.append_nil]⟩

theorem trans (h : s.Leads s') (h' : s'.Leads s'') : s.Leads s'' := by
  intro ops scopes r hr
  obtain ⟨more, scopes', r', hr'⟩ := h ops scopes r hr
  obtain ⟨more', scopes'', r'', hr''⟩ := h' _ scopes' r' hr'
  exact ⟨more ++ more', scopes'', r'', by rwa [← List.append_assoc]⟩

theorem newLevel (s : Store) : s.Leads s.newLevel :=
  fun _ scopes _ h => ⟨[.newLevel], scopes, _, h.step .newLevel trivial⟩

theorem register {name : String} {entry : Entry} (h : s.register name entry = .ok s') :
    s.Leads s' := by
  intro ops scopes r hr
  have hr' := hr.step (.register name entry) trivial
  simp only [Op.apply, declare_eq, h] at hr'
  exact ⟨[.register name entry], scopes, _, hr'⟩

end Leads

end Store

namespace Exec.Lawful

variable {α : Type} {x : Exec α} {m m' : Machine} {a : α} {ops : List Store.Op} {scopes : List Scope}
  {r : Lexical}

theorem leads (hx : x.Lawful) (h : x m = .done a m') : m.store.Leads m'.store := by
  intro ops scopes r hr
  obtain ⟨more, ⟨s, scopes'⟩, r', -, hr', -, hends⟩ := hx m ops scopes r hr
  obtain rfl : m'.store = s := hends.of_done h
  exact ⟨more, scopes', r', hr'⟩

/-- A scope that was looked up before may be used afterwards too. -/
theorem keeps_scope (hx : x.Lawful) (h : x m = .done a m') (hr : Store.Reached ops ⟨m.store, scopes⟩ r) {name : String} {f : Function}
    {scope : Scope} (hf : m.store.lookupFunction name = .ok (f, scope)) :
    ∃ more session' r', x.Performs m more ∧
      Store.Reached (ops ++ .lookupFunction name :: more) session' r' ∧
      session'.store = m'.store ∧ scope ∈ session'.scopes := by
  have hr₁ := hr.step (.lookupFunction name) trivial
  simp only [Store.Op.apply, hf] at hr₁
  obtain ⟨more, session', r', hperforms, hr', hextends, hends⟩ := hx m _ _ _ hr₁
  rw [List.append_assoc] at hr'
  exact ⟨more, session', r', hperforms, hr', (hends.of_done h).symm,
    hextends.scopes scope List.mem_cons_self⟩

end Exec.Lawful

/-- A run comes to no store but by operations in the way that is asked for. -/
theorem Store.Leads.along (limit : Nat) : Along limit fun m m' => m.store.Leads m'.store where
  refl m := .refl m.store
  trans h h' := h.trans h'
  located m _ := .refl m.store
  eval {n e _ _ _} hd := ((eval_exec_lawful limit n).1 e).leads hd
  exec {n stmt _ _} hd := ((eval_exec_lawful limit n).2 stmt).leads hd
  block {n stmts _ _} hd :=
    Exec.Lawful.leads (Exec.Lawful.block (eval_exec_lawful limit n).2 stmts) hd
  item {n name ty v stmts _ _} hd := by
    have hblock := Exec.Lawful.block (eval_exec_lawful limit n).2 stmts
    exact (Exec.Lawful.bind (.register name _) fun _ => hblock).onLevel.leads hd
  newLevel m := .newLevel m.store
  register hr := .register hr
  frame {n name args f scope values m m'} hf hargs _ := by
    have hx := Exec.Lawful.evalAll (eval_exec_lawful limit n).1 args
    intro ops scopes r hr
    obtain ⟨more, ⟨s, scopes'⟩, r', -, hr', hs, hscope⟩ := hx.keeps_scope hargs hr hf
    obtain rfl : s = m'.store := hs
    have hframe := hr'.step (.newFrame scope) hscope
    rw [List.append_assoc] at hframe
    exact ⟨_, scopes', _, hframe⟩

section Frames

variable {ops : List Store.Op} {scopes : List Scope} {r : Lexical}

/-- The scope that a call has found stands all the time until its arguments have been evaluated, and
may then be used for the frame. -/
theorem Visited.frame_stands {limit steps n : Nat} {program : Block} {m m' : Machine}
    {name : String} {args : List Expr} {p : Position} {o : Origins} {f : Function} {scope : Scope}
    (hr : Store.Reached ops ⟨m.store, scopes⟩ r)
    (hv : Visited limit steps program m ⟨n, .call name args, p, m', o⟩)
    (hf : m'.store.lookupFunction name = .ok (f, scope)) :
    (∀ a, Entered limit ⟨n, .args args, p, m', o⟩ a → a.machine.store.Stands scope) ∧
      ∀ values m'', Exec.evalAll (Expr.eval limit n) args m' = .done values m'' →
        m''.store.Stands scope ∧ ∃ more session' r', Store.Reached (ops ++ more) session' r' ∧
          session'.store = m''.store ∧ scope ∈ session'.scopes := by
  obtain ⟨before, scopes', r', hr'⟩ := (Store.Leads.along limit).visited hv ops scopes r hr
  refine ⟨fun a ha => ?_, fun values m'' hargs => ?_⟩
  · have hstands := Store.lookupFunction_stands hr'.represents.1.valid hf
    exact (Store.Stands.along limit scope).entered ha hstands
  · have hx := Exec.Lawful.evalAll (eval_exec_lawful limit n).1 args
    obtain ⟨more, session', r'', -, hr'', hs, hscope⟩ := hx.keeps_scope hargs hr' hf
    rw [List.append_assoc] at hr''
    exact ⟨hs ▸ hr''.represents.2 scope hscope, _, session', r'', hr'', hs, hscope⟩

/-- The definition of a function is either rejected before anything is bound, or its body is checked
in a frame with the scope that is found for the name right after it was bound. -/
theorem Stmt.define_frame_stands {c : Checker} (hr : Store.Reached ops ⟨c.store, scopes⟩ r)
    (loc : Location) (name : String) (params : List Param) (returns : Ty) (body : Block) :
    (∃ fault c', (Stmt.define loc name params returns body).analyze c = (.error fault, c') ∧
        c'.store = c.store) ∨
      ∃ scope c' r', (Stmt.define loc name params returns body).analyze c =
          Check.inFunction scope returns (do
            Check.bindParams params
            Check.onLevel (Stmt.analyzeAll body)) c' ∧
        Store.Reached
          (ops ++ [.register name (.function ⟨params, returns, body⟩), .lookupFunction name])
          ⟨c'.store, scope :: scopes⟩ r' := by
  let entry : Entry := .function ⟨params, returns, body⟩
  let c₁ : Checker := { c with location := some loc }
  have hlocation : Check.setLocation loc c = (.ok (), c₁) := rfl
  rw [Stmt.analyze, Check.bind_ok hlocation]
  cases Stmt.checkParams params with
  | error cause => exact .inl ⟨_, c₁, Check.bind_error (Check.ask_error rfl), rfl⟩
  | ok u =>
    rw [Check.bind_ok (Check.ask_ok (f := fun _ => .ok u) rfl)]
    cases hs : c.store.register name entry with
    | error e =>
      have hreg : Check.register name entry c₁ = (.error ⟨.store e, some loc⟩, c₁) := by
        rw [Check.register_eq, hs]
      exact .inl ⟨_, c₁, Check.bind_error hreg, rfl⟩
    | ok s =>
      have hreg : Check.register name entry c₁ = (.ok (), { c₁ with store := s }) := by
        rw [Check.register_eq, hs]
      obtain ⟨scope, hf⟩ := Store.lookupFunction_register hr.represents.1.valid hs
      have hask : Check.ask (fun c => liftStore (c.store.lookupFunction name))
          { c₁ with store := s } = (.ok (⟨params, returns, body⟩, scope), { c₁ with store := s }) :=
        Check.ask_ok (congrArg liftStore hf)
      rw [Check.bind_ok hreg, Check.bind_ok hask]
      have hr₁ := hr.step (.register name entry) trivial
      simp only [Store.Op.apply, Store.declare_eq, hs] at hr₁
      have hr₂ := hr₁.step (.lookupFunction name) trivial
      simp only [Store.Op.apply, Store.orUnchanged, hf, List.append_assoc] at hr₂
      exact .inr ⟨scope, _, _, rfl, hr₂⟩

end Frames

namespace Store

/-- However a store was used, if frames were only opened in scopes that still stood: links lead
strictly outwards, and bindings are numbered in the order in which they were made, level after
level. So the search for a name visits levels of the stack only, one further out than the other, and
ends. Programs and checkers use a store in no other way, whatever the program: what they do
continues the history. The scope that a call has found, wherever a run has come to, stands at all
moments until the arguments have been evaluated, and may be used for the frame then; a checker
opens the frame of a function in the scope that it finds for it when it has just bound it. -/
theorem Reached.stays_ordered {ops : List Op} {session : Session} {r : Lexical}
    (h : Reached ops session r) :
    let s := session.store
    (∀ (i : Nat) level link, s.levels[i]? = some level → level.parent = some link →
        link.level < i) ∧
      s.numbers.Nodup ∧ (∀ id ∈ s.numbers, id < s.nextId) ∧
      (∀ (i j : Nat) low high, i < j → s.levels[i]? = some low → s.levels[j]? = some high →
        ∀ a ∈ low.bindings, ∀ b ∈ high.bindings, a.id < b.id) ∧
      (∀ name, s.depth = 0 → s.find? name = none) ∧
      (∀ name, 0 < s.depth → ∃ visited : List Nat, visited.Pairwise (· > ·) ∧
        (∀ j ∈ visited, j < s.depth) ∧
        ∀ visited' result, s.Walk name (s.depth - 1) none visited' result ↔
          visited' = visited ∧ result = s.find? name) ∧
      (∀ m limit steps program, m.store = s →
        Exec.Continues (Machine.run limit steps program) m ops session.scopes) ∧
      (∀ (c : Checker) (block : Block), c.store = s →
        block.analyze.Continues c ops session.scopes) ∧
      (∀ m limit n name args f scope values m', m.store = s →
        s.lookupFunction name = .ok (f, scope) →
        Exec.evalAll (Expr.eval limit n) args m = .done values m' →
        ∃ more session' r', (Exec.evalAll (Expr.eval limit n) args).Performs m more ∧
          Reached (ops ++ .lookupFunction name :: more) session' r' ∧
          session'.store = m'.store ∧ scope ∈ session'.scopes) ∧
      (∀ m limit steps program n name args p m' o f scope, m.store = s →
        Visited limit steps program m ⟨n, .call name args, p, m', o⟩ →
        m'.store.lookupFunction name = .ok (f, scope) →
        (∀ a, Entered limit ⟨n, .args args, p, m', o⟩ a → a.machine.store.Stands scope) ∧
          ∀ values m'', Exec.evalAll (Expr.eval limit n) args m' = .done values m'' →
            m''.store.Stands scope ∧ ∃ more session' r', Reached (ops ++ more) session' r' ∧
              session'.store = m''.store ∧ scope ∈ session'.scopes) ∧
      ∀ (c : Checker) loc name params returns body, c.store = s →
        (∃ fault c', (Stmt.define loc name params returns body).analyze c = (.error fault, c') ∧
          c'.store = s) ∨
        ∃ scope c' r', (Stmt.define loc name params returns body).analyze c =
            Check.inFunction scope returns (do
              Check.bindParams params
              Check.onLevel (Stmt.analyzeAll body)) c' ∧
          Reached
            (ops ++ [.register name (.function ⟨params, returns, body⟩), .lookupFunction name])
            ⟨c'.store, scope :: session.scopes⟩ r' := by
  have hs := h.represents.1.valid
  refine ⟨hs.outward, hs.numbers_nodup, fun id hid => ?_, hs.layered, fun name hd => if_pos hd,
    fun name hd => hs.exists_walk hd name, fun m limit steps program hm => ?_,
    fun c block hc => ?_, fun m limit n name args f scope values m' hm hf hargs => ?_,
    fun m limit steps program n name args p m' o f scope hm hv hf => ?_,
    fun c loc name params returns body hc => ?_⟩
  · obtain ⟨i, level, b, hl, hb, rfl⟩ := mem_numbers.1 hid
    exact hs.counted i level hl b hb
  · exact Machine.run_lawful limit steps program m ops _ r (by rwa [hm])
  · exact block.analyze_lawful c ops _ r (by rwa [hc])
  · have hx := Exec.Lawful.evalAll (eval_exec_lawful limit n).1 args
    have hr : Reached ops ⟨m.store, session.scopes⟩ r := by rwa [hm]
    exact hx.keeps_scope hargs hr (hm ▸ hf)
  · have hr : Reached ops ⟨m.store, session.scopes⟩ r := by rwa [hm]
    exact hv.frame_stands hr hf
  · have hr : Reached ops ⟨c.store, session.scopes⟩ r := by rwa [hc]
    rw [← hc]
    exact Stmt.define_frame_stands hr loc name params returns body

/-- From the frame of a call, the search for the name of the function passes the level of the
caller by. -/
theorem Reached.stays_ordered_in_frame :
    let f : Binding := ⟨"f", 0, .function ⟨[], .none, []⟩⟩
    ∃ session r, Reached [.register f.name f.entry, .newLevel, .lookupFunction "f",
        .newFrame ⟨0, 0⟩] session r ∧
      session.store.Walk "f" 2 none [2, 0] (some (0, f)) ∧
      session.store.find? "f" = some (0, f) := by
  intro f
  obtain ⟨session, r, h, hl⟩ : ∃ session r, Reached [.register f.name f.entry, .newLevel,
        .lookupFunction "f", .newFrame ⟨0, 0⟩] session r ∧
      session.store.levels = #[⟨[f], none⟩, .empty (some ⟨0, none⟩), .empty (some ⟨0, some 0⟩)] :=
    ⟨_, _, (((Reached.start.step (.register f.name f.entry) trivial).step .newLevel trivial).step
      (.lookupFunction "f") trivial).step (.newFrame ⟨0, 0⟩)
      (show (⟨0, 0⟩ : Scope) ∈ _ by decide +kernel), by with_unfolding_all rfl⟩
  have hd : session.store.depth = 3 := by
    rw [depth, hl]
    rfl
  have hlink : (Level.empty (some ⟨0, some 0⟩)).parent = some ⟨0, some 0⟩ := rfl
  have hwalk : session.store.Walk "f" 2 none [2, 0] (some (0, f)) :=
    .follow (by rw [hl]; rfl) rfl hlink (.found (by rw [hl]; rfl) rfl)
  obtain ⟨visited, -, -, hwalks⟩ := h.stays_ordered.2.2.2.2.2.1 "f" (by omega)
  rw [hd] at hwalks
  exact ⟨session, r, h, hwalk, ((hwalks _ _).1 hwalk).2.symm⟩

end Store

end Offside
