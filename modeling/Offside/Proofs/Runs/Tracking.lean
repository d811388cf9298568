import Offside.Proofs.Runs.Positions
import Offside.Proofs.Typing.Soundness

/-!
Names with their declarations. When the stores of the checker and of a running program agree, and
each name in scope comes from the same declaration in both, then this stays so whatever is opened
or bound in both, and also when a function is called.
-/

namespace Offside

/-- What is known of a name in scope before anything runs, and where the name comes from. -/
abbrev Traced := List (Option Declaration × String × Entry)

namespace Store

def traced (s : Store) (o : Origins) : Traced :=
  s.visible.map fun entry => (o.find? entry.1 entry.2.name, entry.2.name, entry.2.entry.erase)

theorem context_eq_map_traced (s : Store) (o : Origins) :
    s.context = (s.traced o).map Prod.snd := by
  simp [context, traced, Function.comp_def]

theorem context_of_traced {s t : Store} {o p : Origins} (h : s.traced o = t.traced p) :
    s.context = t.context := by
  rw [context_eq_map_traced s o, h, ← context_eq_map_traced]

theorem traced_of_shape {s t : Store} (h : t.shape = s.shape) (o : Origins) :
    t.traced o = s.traced o := by
  have := congrArg (List.map fun entry : Nat × Binding =>
    (o.find? entry.1 entry.2.name, entry.2.name, entry.2.entry)) (visible_of_shape h)
  simpa [traced, List.map_map, Function.comp_def, Binding.erase] using this

/-- Where a new level sees what the innermost one sees, nothing changes. -/
theorem traced_of_visible {s t : Store} (hs : s.Valid) {o : Origins} (ho : o.size = s.depth)
    (h : t.visible = s.visible) : t.traced o.newLevel = s.traced o := by
  unfold traced
  rw [h]
  refine List.map_congr_left fun entry he => ?_
  obtain ⟨level, hl, -⟩ := mem_visible hs he
  rw [Origins.find?_newLevel o (ho ▸ lt_depth hl)]

theorem traced_newLevel {s : Store} (h : 0 < s.depth) (hs : s.Valid) {o : Origins}
    (ho : o.size = s.depth) : s.newLevel.traced o.newLevel = s.traced o :=
  traced_of_visible hs ho (visible_newLevel h)

theorem traced_extend {s : Store} (h : 0 < s.depth) (hs : s.Valid) {o : Origins}
    (ho : o.size = s.depth) {name : String} (hn : name ∉ s.locals) (entry : Entry)
    (d : Declaration) :
    (s.extend name entry).traced (o.bind name d) = (some d, name, entry.erase) :: s.traced o := by
  unfold traced
  rw [visible_extend h hs, List.map_cons]
  congr 1
  · simp only
    rw [← ho, Origins.find?_bind_self o (by omega)]
  · refine List.map_congr_left fun entry he => ?_
    obtain ⟨level, hl, hb⟩ := mem_visible hs he
    rw [Origins.find?_bind_of_ne]
    rintro hi rfl
    rw [hi, ho] at hl
    unfold locals at hn
    rw [hl] at hn
    exact hn (List.mem_map.mpr ⟨entry.2, hb, rfl⟩)

/-- The frame of a call sees what its function saw. -/
theorem traced_newFrame {s : Store} (hs : s.Valid) {o : Origins} (ho : o.size = s.depth)
    {name : String} {i : Nat} {b : Binding} (h : s.find? name = some (i, b)) :
    ∃ before after, s.traced o = before ++ (o.find? i name, name, b.entry.erase) :: after ∧
      (s.newFrame ⟨i, b.id⟩).traced o.newLevel = (o.find? i name, name, b.entry.erase) :: after := by
  obtain ⟨rfl, -, before, after, hv, hf⟩ := visible_of_find? hs h
  refine ⟨before.map fun e => (o.find? e.1 e.2.name, e.2.name, e.2.entry.erase),
    after.map fun e => (o.find? e.1 e.2.name, e.2.name, e.2.entry.erase), ?_, ?_⟩
  · simp [traced, hv]
  · have hcongr : ∀ entry ∈ (i, b) :: after,
        o.newLevel.find? entry.1 entry.2.name = o.find? entry.1 entry.2.name := by
      intro entry he
      obtain ⟨level, hl, -⟩ := mem_visible hs (by rw [hv]; exact List.mem_append_right before he)
      exact Origins.find?_newLevel o (ho ▸ lt_depth hl) entry.2.name
    unfold traced
    rw [hf, List.map_cons, hcongr _ List.mem_cons_self]
    congr 1
    refine List.map_congr_left fun entry he => ?_
    rw [hcongr entry (List.mem_cons_of_mem _ he)]

/-- Where a name comes from can be seen from the names in scope. -/
theorem find?_traced {s : Store} (hs : s.Valid) (o : Origins) (name : String) :
    (s.find? name).map (fun entry => (o.find? entry.1 name, name, entry.2.entry.erase)) =
      (s.traced o).find? fun entry => entry.2.1 = name := by
  rw [find?_eq hs, traced, List.find?_map]
  change (s.visible.find? fun entry => entry.2.name = name).map _ =
    (s.visible.find? fun entry => entry.2.name = name).map _
  cases hf : s.visible.find? fun entry => entry.2.name = name with
  | none => rfl
  | some entry =>
    have hn : entry.2.name = name := by simpa using List.find?_some hf
    simp [hn]

end Store

/-- What the checker bound a name to at its declaration. -/
inductive Block.Registers (program : Block) : Declaration → String → Entry → Prop
  | declared {position : Position} {site : Site} {loc : Location} {name : String} {ty : Option Ty}
      {initializer : Option Expr} {rest : List Stmt} {t : Ty}
      (hs : program.site? position = some site)
      (hr : site.rest = .declare loc name ty initializer :: rest)
      (ht : Stmt.declaredType site.store name ty initializer = .ok t) :
      Registers program ⟨position, none⟩ name (.variable ⟨t, none⟩)
  | defined {position : Position} {site : Site} {loc : Location} {name : String}
      {params : List Param} {returns : Ty} {body rest : List Stmt}
      (hs : program.site? position = some site)
      (hr : site.rest = .define loc name params returns body :: rest) :
      Registers program ⟨position, none⟩ name (.function ⟨params, returns, body⟩)
  | param {position : Position} {site : Site} {loc : Location} {function name : String}
      {params : List Param} {returns t : Ty} {body rest : List Stmt} {i : Nat}
      (hs : program.site? position = some site)
      (hr : site.rest = .define loc function params returns body :: rest)
      (hp : params[i]? = some ⟨name, t⟩) :
      Registers program ⟨position, some i⟩ name (.variable ⟨t, none⟩)
  | loop {position : Position} {site : Site} {loc : Location} {name : String} {range : Expr}
      {body rest : List Stmt} {t : Ty} (hs : program.site? position = some site)
      (hr : site.rest = .for loc name range body :: rest)
      (ht : Stmt.elementType site.store range = .ok t) :
      Registers program ⟨position, none⟩ name (.variable ⟨t, none⟩)

/-- At the position the function is defined, and these names are in scope in its frame. -/
inductive Block.Defines (program : Block) (position : Position) (name : String) (f : Function)
    (names : Traced) : Prop
  | intro {site : Site} {loc : Location} {rest : List Stmt} {s frame s₀ : Store}
      (hs : program.site? position = some site)
      (hr : site.rest = .define loc name f.params f.returns f.body :: rest)
      (hb : Stmt.bindFunction site.store name f = .ok (s, frame))
      (valid : s₀.Valid) (opened : 0 < s₀.depth) (locals : s₀.locals = [])
      (size : (site.origins.bind name ⟨position, none⟩).newLevel.size = s₀.depth)
      (traced : s₀.traced (site.origins.bind name ⟨position, none⟩).newLevel = names)
      (params : Stmt.bindAll s₀ f.params = .ok frame)
      (body : Stmt.checkAll frame.newLevel (some f.returns) f.body = .ok ())

/-- Every function in scope is the one that is defined where its name comes from. -/
def Block.DefinesAll (program : Block) (names : Traced) : Prop :=
  ∀ before d name f after, names = before ++ (d, name, .function f) :: after →
    ∃ position, d = some ⟨position, none⟩ ∧
      program.Defines position name f ((d, name, .function f) :: after)

theorem Block.DefinesAll.cons {program : Block} {names : Traced} (h : program.DefinesAll names)
    {d : Option Declaration} {name : String} {entry : Entry}
    (he : ∀ f, entry = .function f → ∃ position, d = some ⟨position, none⟩ ∧
      program.Defines position name f ((d, name, entry) :: names)) :
    program.DefinesAll ((d, name, entry) :: names) := by
  intro before d' n f after hc
  cases before with
  | nil =>
    cases hc
    exact he f rfl
  | cons e before =>
    rw [List.cons_append, List.cons.injEq] at hc
    exact h before d' n f after hc.2

theorem Block.DefinesAll.of_suffix {program : Block} {before names : Traced}
    (h : program.DefinesAll (before ++ names)) : program.DefinesAll names := by
  intro before' d n f after hc
  exact h (before ++ before') d n f after (by rw [hc, List.append_assoc])

/-- The running store `σ` is as the checker expects it in `s`, and the names in both have the same
declarations. What is bound in the running store anywhere, was bound to the same by the checker. -/
structure Tracks (program : Block) (concrete : Prop) (s : Store) (os : Origins) (σ : Store)
    (o : Origins) : Prop where
  ready : Ready concrete s σ
  checked_size : os.size = s.depth
  size : o.size = σ.depth
  traced : s.traced os = σ.traced o
  registered : ∀ (i : Nat) level, σ.levels[i]? = some level → ∀ b ∈ level.bindings,
    ∃ d, o.find? i b.name = some d ∧ program.Registers d b.name b.entry.erase
  defined : program.DefinesAll (σ.traced o)

namespace Tracks

variable {program : Block} {concrete : Prop} {s σ : Store} {os o : Origins}

theorem advance {m m' : Machine} (h : Tracks program concrete s os m.store o)
    (ha : m.Advances m') : Tracks program concrete s os m'.store o where
  ready := h.ready.advance ha
  checked_size := h.checked_size
  size := by rw [Store.depth_of_shape ha.keeps.shape, h.size]
  traced := by rw [Store.traced_of_shape ha.keeps.shape, h.traced]
  registered i level hl b hb := by
    obtain ⟨level', hl', he⟩ := Store.levels_of_shape ha.keeps.shape hl
    have hm : b.erase ∈ level'.erase.bindings := by
      rw [he]
      exact List.mem_map.mpr ⟨b, hb, rfl⟩
    obtain ⟨b', hb', hbe⟩ := List.mem_map.mp hm
    obtain ⟨d, hd, hr⟩ := h.registered i level' hl' b' hb'
    rw [show b.name = b'.name from (congrArg Binding.name hbe).symm,
      show b.entry.erase = b'.entry.erase from (congrArg Binding.entry hbe).symm]
    exact ⟨d, hd, hr⟩
  defined := by
    rw [Store.traced_of_shape ha.keeps.shape]
    exact h.defined

theorem registered_pushLevel (h : Tracks program concrete s os σ o) (parent : Option Link) (i : Nat)
    (level : Level) (hl : (σ.pushLevel parent).levels[i]? = some level) (b : Binding)
    (hb : b ∈ level.bindings) :
    ∃ d, o.newLevel.find? i b.name = some d ∧ program.Registers d b.name b.entry.erase := by
  obtain ⟨hi, hl⟩ | ⟨-, rfl⟩ := Store.levels_pushLevel_cases hl
  · rw [Origins.find?_newLevel o (h.size ▸ hi)]
    exact h.registered i level hl b hb
  · cases hb

theorem newLevel (h : Tracks program concrete s os σ o) :
    Tracks program concrete s.newLevel os.newLevel σ.newLevel o.newLevel where
  ready := h.ready.newLevel
  checked_size := by simp [h.checked_size]
  size := by simp [h.size]
  traced := by
    rw [Store.traced_newLevel h.ready.checking h.ready.checked h.checked_size,
      Store.traced_newLevel h.ready.running h.ready.valid h.size, h.traced]
  registered := h.registered_pushLevel _
  defined := by
    rw [Store.traced_newLevel h.ready.running h.ready.valid h.size]
    exact h.defined

/-- The same declaration binds a name in both. -/
theorem extend (h : Tracks program concrete s os σ o) {name : String} (hn : name ∉ s.locals)
    {d e : Entry} {origin : Declaration}
    (hready : Ready concrete (s.extend name d) (σ.extend name e))
    (hr : program.Registers origin name e.erase)
    (hf : ∀ f, e = .function f → ∃ position, some origin = some ⟨position, none⟩ ∧
      program.Defines position name f ((some origin, name, e.erase) :: σ.traced o)) :
    Tracks program concrete (s.extend name d) (os.bind name origin) (σ.extend name e)
      (o.bind name origin) := by
  have hnσ : name ∉ σ.locals := h.ready.locals ▸ hn
  have htraced := Store.traced_extend h.ready.running h.ready.valid h.size hnσ e origin
  obtain ⟨inner, hinner⟩ := Store.exists_innermost h.ready.running
  refine ⟨hready, by simp [h.checked_size], by simp [h.size], ?_, ?_, ?_⟩
  · rw [htraced, Store.traced_extend h.ready.checking h.ready.checked h.checked_size hn,
      h.traced, hready.entry_eq h.ready]
  · intro i level hl b hb
    obtain ⟨hi, hl⟩ | ⟨rfl, rfl⟩ := Store.levels_extend_cases hinner hl
    · rw [Origins.find?_bind_of_ne o origin (by rw [h.size]; omega)]
      exact h.registered i level hl b hb
    · obtain rfl | hb := List.mem_cons.mp hb
      · refine ⟨origin, ?_, hr⟩
        rw [← h.size, Origins.find?_bind_self o (by rw [h.size]; exact h.ready.running)]
      · rw [Origins.find?_bind_of_ne]
        · exact h.registered _ inner hinner b hb
        · intro _ hname
          unfold Store.locals at hnσ
          rw [hinner] at hnσ
          exact hnσ (List.mem_map.mpr ⟨b, hb, hname⟩)
  · rw [htraced]
    refine h.defined.cons fun f he => ?_
    match e with
    | .variable v => cases he
    | .function g =>
      cases he
      exact hf f rfl

/-- A name comes from the same declaration in both. -/
theorem origin? (h : Tracks program concrete s os σ o) (name : String) :
    s.origin? os name = σ.origin? o name := by
  have hfind : (s.find? name).map (fun entry => (os.find? entry.1 name, name, entry.2.entry.erase)) =
      (σ.find? name).map fun entry => (o.find? entry.1 name, name, entry.2.entry.erase) := by
    rw [Store.find?_traced h.ready.checked, Store.find?_traced h.ready.valid, h.traced]
  unfold Store.origin?
  match hs : s.find? name, hσ : σ.find? name with
  | none, none => rfl
  | some _, none =>
    rw [hs, hσ] at hfind
    cases hfind
  | none, some _ =>
    rw [hs, hσ] at hfind
    cases hfind
  | some _, some _ =>
    rw [hs, hσ] at hfind
    exact (Prod.mk.inj (Option.some.inj hfind)).1

theorem exists_origin (h : Tracks program concrete s os σ o) {name : String} {i : Nat} {b : Binding}
    (hf : σ.find? name = some (i, b)) :
    ∃ d, σ.origin? o name = some d ∧ program.Registers d name b.entry.erase := by
  obtain ⟨rfl, ⟨level, hl, hb⟩, -⟩ := Store.visible_of_find? h.ready.valid hf
  obtain ⟨d, hd, hr⟩ := h.registered i level hl b (List.mem_of_find?_eq_some hb)
  refine ⟨d, ?_, hr⟩
  unfold Store.origin?
  rw [hf]
  exact hd

/-- The frame of a call is as the checker expects it at the definition of the function. -/
theorem newFrame (h : Tracks program concrete s os σ o) {name : String} {f : Function}
    {scope : Scope} {position : Position} (hf : σ.lookupFunction name = .ok (f, scope))
    (ho : σ.origin? o name = some ⟨position, none⟩) :
    ∃ s₀ os₀ frame, Tracks program concrete s₀ os₀ (σ.newFrame scope) o.newLevel ∧
      Stmt.bindAll s₀ f.params = .ok frame ∧
      program.site? (position.inner false) = some ⟨frame.newLevel,
        (os₀.bindParams position 0 f.params).newLevel, some f.returns, f.body⟩ ∧
      Stmt.checkAll frame.newLevel (some f.returns) f.body = .ok () ∧
      ∀ (i : Nat) p, f.params[i]? = some p →
        program.Registers ⟨position, some i⟩ p.name (.variable ⟨p.ty, none⟩) := by
  unfold Store.lookupFunction at hf
  split at hf
  · case h_1 i n id g hfind =>
    cases hf
    obtain ⟨before, after, htraced, hframe⟩ := Store.traced_newFrame h.ready.valid h.size hfind
    obtain ⟨-, ⟨level, hl, -⟩, -⟩ := Store.visible_of_find? h.ready.valid hfind
    have horigin : o.find? i name = some ⟨position, none⟩ := by
      unfold Store.origin? at ho
      rw [hfind] at ho
      exact ho
    simp only [horigin, Entry.erase] at htraced hframe
    obtain ⟨position', hp, hdefines⟩ := h.defined _ _ _ _ _ htraced
    cases hp
    cases hdefines with
    | @intro site loc rest s₁ frame s₀ hs hr hb valid opened locals size traced params body =>
      refine ⟨s₀, (site.origins.bind name ⟨position, none⟩).newLevel, frame, ?_, params, ?_, body,
        fun j p hj => .param hs hr hj⟩
      · have hready : Ready concrete s₀ (σ.newFrame ⟨i, id⟩) := {
          checked := valid
          checking := opened
          valid := h.ready.valid.newFrame (Store.lt_depth hl)
          running := by simp
          context := Store.context_of_traced (traced.trans hframe.symm)
          locals := by rw [locals, Store.locals_newFrame]
          typed := h.ready.typed.pushLevel _
          closed := by
            have hc := h.ready.closed
            rw [Store.context_eq_map_traced σ o, htraced, List.map_append] at hc
            rw [Store.context_eq_map_traced _ o.newLevel, hframe]
            exact hc.of_suffix }
        refine ⟨hready, size, by simp [h.size], traced.trans hframe.symm, ?_, ?_⟩
        · exact h.registered_pushLevel _
        · have hd := h.defined
          rw [htraced] at hd
          rw [hframe]
          exact hd.of_suffix
      · rw [Block.site?_inner hs]
        unfold Site.inner?
        rw [hr]
        simp only
        rw [hb]
  · cases hf
  · cases hf

theorem declare {m m' : Machine} {site : Site} {position : Position} {limit n : Nat}
    {loc : Location} {name : String} {ty : Option Ty} {initializer : Option Expr}
    {rest : List Stmt} {s' : Store}
    (h : Tracks program concrete site.store site.origins m.store o)
    (hs : program.site? position = some site)
    (hr : site.rest = .declare loc name ty initializer :: rest)
    (hc : (Stmt.declare loc name ty initializer).check site.store site.returns = .ok s')
    (hconcrete : concrete → (Stmt.declare loc name ty initializer).Concrete)
    (hd : (Stmt.declare loc name ty initializer).exec limit n m = .done .next m') :
    Tracks program concrete s' (site.origins.bind name ⟨position, none⟩) m'.store
      (o.bind name ⟨position, none⟩) := by
  have hleads := (Stmt.exec_sound concrete limit n _ _ _ _ m hc hconcrete h.ready).of_done hd
  obtain ⟨m₁, entry, hk, -, rfl⟩ := (Stmt.exec_leaves limit n _ m h.ready.running).of_done hd
  obtain ⟨t, ht, hreg⟩ := Stmt.check_declare hc
  obtain ⟨hn, rfl⟩ := Store.register_ok h.ready.checking hreg
  have h₁ := h.advance ⟨hk, hleads.typed.of_extend⟩
  have hready := hleads.ready rfl
  have he := hready.entry_eq h₁.ready
  refine h₁.extend hn hready ?_ fun f hf => ?_
  · rw [← he]
    exact .declared hs hr ht
  · rw [hf] at he
    cases he

theorem define {m m' : Machine} {site : Site} {position : Position} {limit n : Nat}
    {loc : Location} {name : String} {params : List Param} {returns : Ty} {body rest : List Stmt}
    {s' : Store} (h : Tracks program concrete site.store site.origins m.store o)
    (hs : program.site? position = some site)
    (hr : site.rest = .define loc name params returns body :: rest)
    (hc : (Stmt.define loc name params returns body).check site.store site.returns = .ok s')
    (hconcrete : concrete → (Stmt.define loc name params returns body).Concrete)
    (hd : (Stmt.define loc name params returns body).exec limit n m = .done .next m') :
    Tracks program concrete s' (site.origins.bind name ⟨position, none⟩) m'.store
      (o.bind name ⟨position, none⟩) := by
  have hleads := (Stmt.exec_sound concrete limit n _ _ _ _ m hc hconcrete h.ready).of_done hd
  obtain ⟨m₁, entry, hk, -, rfl⟩ := (Stmt.exec_leaves limit n _ m h.ready.running).of_done hd
  obtain ⟨frame, hbind, hbody⟩ := Stmt.check_define hc
  obtain ⟨-, hreg, g, scope, hlookup, hparams⟩ := Stmt.bindFunction_ok hbind
  obtain ⟨hn, rfl⟩ := Store.register_ok h.ready.checking hreg
  have h₁ := h.advance ⟨hk, hleads.typed.of_extend⟩
  have hready := hleads.ready rfl
  have he : Entry.function ⟨params, returns, body⟩ = entry.erase := hready.entry_eq h₁.ready
  refine h₁.extend hn hready ?_ fun f hf => ⟨position, rfl, ?_⟩
  · rw [← he]
    exact .defined hs hr
  · rw [hf] at he
    cases he
    obtain ⟨hfind, hvisible⟩ := Store.find?_extend h.ready.checking h.ready.checked hn
      (.function ⟨params, returns, body⟩)
    unfold Store.lookupFunction at hlookup
    rw [hfind] at hlookup
    cases hlookup
    have hvalid := hready.checked
    have hsize : (site.origins.bind name ⟨position, none⟩).size =
        (site.store.extend name (.function ⟨params, returns, body⟩)).depth := by
      simp [h.checked_size]
    refine .intro hs hr hbind (hvalid.newFrame ?_) (by simp) (Store.locals_newFrame _ _)
      (by simp [h.checked_size]) ?_ hparams hbody
    · have := h.ready.checking
      simp only [Store.depth_extend]
      omega
    · rw [Store.traced_of_visible hvalid hsize hvisible,
        Store.traced_extend h.ready.checking h.ready.checked h.checked_size hn, hf, h₁.traced]

/-- What a statement declares, it declares for checker and program. -/
theorem statement {m m' : Machine} {site : Site} {position : Position} {limit n : Nat}
    {stmt : Stmt} {rest : List Stmt} {s' : Store}
    (h : Tracks program concrete site.store site.origins m.store o)
    (hs : program.site? position = some site) (hr : site.rest = stmt :: rest)
    (hc : stmt.check site.store site.returns = .ok s') (hconcrete : concrete → stmt.Concrete)
    (hd : stmt.exec limit n m = .done .next m') :
    Tracks program concrete s' (site.origins.declare stmt position) m'.store
      (o.declare stmt position) := by
  have other : stmt.declares? = none → s' = site.store →
      Tracks program concrete s' (site.origins.declare stmt position) m'.store
        (o.declare stmt position) := by
    rintro hnone rfl
    have hk := (Stmt.exec_leaves limit n stmt m h.ready.running).of_done hd
    have hleads := (Stmt.exec_sound concrete limit n _ _ _ _ m hc hconcrete h.ready).of_done hd
    unfold Origins.declare
    rw [hnone] at hk ⊢
    exact h.advance ⟨hk, hleads.typed⟩
  match stmt with
  | .declare .. => exact h.declare hs hr hc hconcrete hd
  | .define .. => exact h.define hs hr hc hconcrete hd
  | .expr .. => exact other rfl (Stmt.check_expr hc).1
  | .return .. => exact other rfl (Stmt.check_return hc).1
  | .print .. => exact other rfl (Stmt.check_print hc).1
  | .read .. => exact other rfl (Stmt.check_read hc).1
  | .cond .. => exact other rfl (Stmt.check_cond hc).1
  | .while .. => exact other rfl (Stmt.check_while hc).1
  | .for .. => exact other rfl (Stmt.check_for hc).1

end Tracks

end Offside
