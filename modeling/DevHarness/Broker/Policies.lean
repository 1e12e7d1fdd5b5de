import DevHarness.Broker.Cost
import Mathlib.Data.List.Perm.Basic
/-!
# Policies — which block of the configuration a provider's policy and models come from

`broker/policies.py`, `providers/registry.py`.  Both registries go through the blocks in order and map each name to a
provider, a name that is no provider's to Ollama; a later block replaces an earlier one of its provider.  Names are
compared in lower case.
-/
namespace DevHarness
namespace Broker

open Lib

abbrev Block := String × ProviderConfig

def policyOf (pid : ProviderId) (pconf : ProviderConfig) : ProviderPolicy :=
  ⟨pid, pconf.rpm, pconf.tpm, pconf.maxConcurrency⟩

/-- The block bears the provider's name. -/
def Bears (b : Block) (pid : ProviderId) : Prop := b.1.toLower = pid.value

instance (b : Block) (pid : ProviderId) : Decidable (Bears b pid) := inferInstanceAs (Decidable (_ = _))

def Unknown (b : Block) : Prop := ∀ pid, ¬ Bears b pid

instance (b : Block) : Decidable (Unknown b) := inferInstanceAs (Decidable (∀ pid : ProviderId, ¬ Bears b pid))

/-- The last block that passes a test. -/
def lastBlock (test : Block → Bool) (blocks : List Block) : Option Block := blocks.reverse.find? test

/-- The block is the last of its name. -/
def InForce (blocks : List Block) (b : Block) : Prop := lastBlock (fun b' => b'.1.toLower = b.1.toLower) blocks = some b

/-- The same blocks, those of one name in the same order. -/
structure Reordered (cfg cfg' : HarnessConfig) : Prop where
  perm : cfg.providers.items.Perm cfg'.providers.items
  order : ∀ name, cfg.providers.items.filter (fun b => b.1.toLower = name) =
    cfg'.providers.items.filter (fun b => b.1.toLower = name)

/-- The configuration without the blocks of unknown names. -/
def known (cfg : HarnessConfig) : HarnessConfig :=
  { cfg with providers := cfg.providers.keep (fun b => decide (¬ Unknown b)) }

/-- Both registries are the same. -/
def SameRegistries (cfg cfg' : HarnessConfig) : Prop :=
  (∀ pid, (loadPolicies cfg).get? pid = (loadPolicies cfg').get? pid) ∧
    ∀ modelId, (loadModels cfg).get? modelId = (loadModels cfg').get? modelId

/-- **A provider has what the blocks of its name give it**: unknown names change nothing, nor does the order of names. -/
structure OwnBlocksOnly (cfg : HarnessConfig) : Prop where
  policies : ∀ pid policy, (loadPolicies cfg).get? pid = some policy →
    ∃ b ∈ cfg.providers.items, Bears b pid ∧ policy = policyOf pid b.2
  models : ∀ modelId entry, (loadModels cfg).get? modelId = some entry →
    ∃ b ∈ cfg.providers.items, Bears b entry.provider ∧ entry = modelEntry entry.provider b.2 modelId
  ignored : SameRegistries cfg (known cfg)
  order : ∀ cfg', Reordered cfg cfg' → SameRegistries cfg cfg'

/-- **Each unknown name's last block says what the last Ollama block says**, which there has to be. -/
def UnknownAgree (cfg : HarnessConfig) : Prop :=
  ∀ u, InForce cfg.providers.items u → Unknown u → ∃ o, InForce cfg.providers.items o ∧ Bears o .ollama ∧
    policyOf .ollama u.2 = policyOf .ollama o.2 ∧ modelEntry .ollama u.2 = modelEntry .ollama o.2

/-! ## The last block -/

theorem lastBlock_eq_none_iff {test : Block → Bool} {blocks : List Block} :
    lastBlock test blocks = none ↔ ∀ b ∈ blocks, test b = false := by
  rw [lastBlock, List.find?_eq_none]
  simp

theorem lastBlock_sound {test : Block → Bool} {blocks : List Block} {b : Block} (h : lastBlock test blocks = some b) :
    b ∈ blocks ∧ test b = true :=
  ⟨List.mem_reverse.1 (List.mem_of_find?_eq_some h), List.find?_some h⟩

theorem lastBlock_append (test : Block → Bool) (before after : List Block) :
    lastBlock test (before ++ after) = (lastBlock test after).or (lastBlock test before) := by
  rw [lastBlock, List.reverse_append, List.find?_append]
  rfl

/-- Only the blocks that pass the test count. -/
theorem lastBlock_filter {test pick : Block → Bool} (h : ∀ b, test b = true → pick b = true) (blocks : List Block) :
    lastBlock test (blocks.filter pick) = lastBlock test blocks := by
  rw [lastBlock, ← List.filter_reverse, List.find?_filter]
  congr 1
  funext b
  cases hb : test b with
  | false => simp
  | true => simp [h b hb]

/-- The last block of a wider test, if it passes the narrower one, is the last of that. -/
theorem lastBlock_of_imp {test wider : Block → Bool} (h : ∀ b, test b = true → wider b = true) {b : Block}
    (hb : test b = true) : ∀ {blocks : List Block}, lastBlock wider blocks = some b → lastBlock test blocks = some b := by
  intro blocks hlast
  rw [lastBlock, ← List.head?_filter] at hlast
  obtain ⟨rest, hrest⟩ := List.head?_eq_some_iff.1 hlast
  rw [← lastBlock_filter h, lastBlock, ← List.filter_reverse, hrest, List.find?_cons, hb]

/-- The blocks in force are those in force in the blocks of their name. -/
theorem inForce_filter (blocks : List Block) (b : Block) :
    InForce (blocks.filter (fun b' => b'.1.toLower = b.1.toLower)) b ↔ InForce blocks b := by
  rw [InForce, InForce, lastBlock_filter (fun _ hb => hb)]

theorem Reordered.inForce_iff {cfg cfg' : HarnessConfig} (h : Reordered cfg cfg') (b : Block) :
    InForce cfg.providers.items b ↔ InForce cfg'.providers.items b := by
  rw [← inForce_filter cfg.providers.items, h.order, inForce_filter]

/-! ## The registries -/

theorem Bears.toProviderId {b : Block} {pid : ProviderId} (h : Bears b pid) : toProviderId b.1 = pid := by
  rw [Broker.toProviderId, h]
  cases pid <;> decide

theorem toProviderId_of_unknown {b : Block} (h : Unknown b) : toProviderId b.1 = .ollama := by
  rw [Broker.toProviderId, List.find?_eq_none.2]
  · rfl
  · intro pid _ hp
    exact h pid (of_decide_eq_true hp).symm

/-- A block goes to the provider whose name it bears, or to Ollama. -/
theorem toProviderId_eq_iff {b : Block} {pid : ProviderId} :
    toProviderId b.1 = pid ↔ Bears b pid ∨ pid = .ollama ∧ Unknown b := by
  constructor
  · intro h
    by_cases hu : Unknown b
    · rw [toProviderId_of_unknown hu] at h
      exact Or.inr ⟨h.symm, hu⟩
    · obtain ⟨pid', hb⟩ : ∃ pid', Bears b pid' := by simpa [Unknown] using hu
      rw [hb.toProviderId] at h
      exact Or.inl (h ▸ hb)
  · rintro (h | ⟨rfl, h⟩)
    · exact h.toProviderId
    · exact toProviderId_of_unknown h

/-- The block a provider's policy and models come from. -/
def source (cfg : HarnessConfig) (pid : ProviderId) : Option Block :=
  lastBlock (fun b => toProviderId b.1 = pid) cfg.providers.items

/-- **The policy in force.** -/
theorem get?_loadPolicies (cfg : HarnessConfig) (pid : ProviderId) :
    (loadPolicies cfg).get? pid = (source cfg pid).map (fun b => policyOf pid b.2) := by
  have hload : loadPolicies cfg =
      Dict.ofList (cfg.providers.items.map (fun b => (toProviderId b.1, policyOf (toProviderId b.1) b.2))) := by
    rw [loadPolicies, Dict.ofList, List.foldl_map]
    rfl
  rw [hload, Dict.get?_ofList, ← List.map_reverse, List.find?_map, source, lastBlock]
  cases h : cfg.providers.items.reverse.find? (fun b => toProviderId b.1 = pid) with
  | none => rw [show (_ ∘ _ : Block → Bool) = fun b => decide (toProviderId b.1 = pid) from rfl, h]; rfl
  | some b =>
    have hb : toProviderId b.1 = pid := by simpa using List.find?_some h
    rw [show (_ ∘ _ : Block → Bool) = fun b => decide (toProviderId b.1 = pid) from rfl, h]
    simp [hb]

theorem get?_foldl_models (pid : ProviderId) (pconf : ProviderConfig) (modelId : String) : ∀ (ids : List String) (d : ModelRegistry),
    (ids.foldl (fun d m => d.set m (modelEntry pid pconf m)) d).get? modelId =
      if modelId ∈ ids then some (modelEntry pid pconf modelId) else d.get? modelId
  | [], d => by simp
  | m :: ids, d => by
    rw [List.foldl_cons, get?_foldl_models pid pconf modelId ids, Dict.get?_set]
    by_cases hm : modelId = m
    · simp [hm]
    · simp [hm]

/-- The provider whose model it is. -/
def ownerOf (modelId : String) : Option ProviderId := ProviderId.members.find? (fun pid => modelId ∈ modelIdsFor pid)

theorem mem_modelIdsFor_iff {modelId : String} {pid : ProviderId} :
    modelId ∈ modelIdsFor pid ↔ ownerOf modelId = some pid := by
  constructor
  · intro h
    cases pid with
    | anthropic =>
      rw [List.mem_singleton.1 h]
      decide
    | openrouter =>
      rw [List.mem_singleton.1 h]
      decide
    | ollama =>
      rcases List.mem_cons.1 h with rfl | h
      · decide
      · rw [List.mem_singleton.1 h]
        decide
  · intro h
    simpa using List.find?_some h

theorem get?_foldl_blocks (modelId : String) : ∀ (blocks : List Block) (d : ModelRegistry),
    (blocks.foldl (fun d p =>
        (modelIdsFor (toProviderId p.1)).foldl (fun d m => d.set m (modelEntry (toProviderId p.1) p.2 m)) d) d).get? modelId =
      ((ownerOf modelId).bind (fun pid => (lastBlock (fun b => toProviderId b.1 = pid) blocks).map
        (fun b => modelEntry pid b.2 modelId))).or (d.get? modelId)
  | [], d => by cases ownerOf modelId <;> rfl
  | b :: blocks, d => by
    rw [List.foldl_cons, get?_foldl_blocks modelId blocks, get?_foldl_models]
    cases ho : ownerOf modelId with
    | none =>
      rw [if_neg (fun hm => by rw [mem_modelIdsFor_iff.1 hm] at ho; cases ho)]
      rfl
    | some pid =>
      have hcons := lastBlock_append (fun b => toProviderId b.1 = pid) [b] blocks
      rw [List.singleton_append] at hcons
      rw [Option.bind_some, Option.bind_some, hcons]
      cases hl : lastBlock (fun b => toProviderId b.1 = pid) blocks with
      | some last => rfl
      | none =>
        by_cases hb : toProviderId b.1 = pid
        · rw [if_pos (mem_modelIdsFor_iff.2 (hb ▸ ho))]
          simp [lastBlock, hb]
        · rw [if_neg (fun hm => hb (Option.some.inj ((mem_modelIdsFor_iff.1 hm).symm.trans ho)))]
          simp [lastBlock, hb]

/-- **The model entry in force.** -/
theorem get?_loadModels (cfg : HarnessConfig) (modelId : String) :
    (loadModels cfg).get? modelId =
      (ownerOf modelId).bind (fun pid => (source cfg pid).map (fun b => modelEntry pid b.2 modelId)) := by
  rw [loadModels, get?_foldl_blocks, Dict.get?_empty, Option.or_none]
  rfl

/-- A provider has a model, and its entry shows what each other entry of the block would be. -/
theorem exists_model (pid : ProviderId) : ∃ modelId, ownerOf modelId = some pid := by
  cases pid with
  | anthropic => exact ⟨"anthropic-default", by decide⟩
  | openrouter => exact ⟨"openrouter-default", by decide⟩
  | ollama => exact ⟨"llama3:8b", by decide⟩

theorem modelEntry_congr {pid : ProviderId} {c d : ProviderConfig} {modelId : String}
    (h : modelEntry pid c modelId = modelEntry pid d modelId) : modelEntry pid c = modelEntry pid d := by
  funext m
  simp only [modelEntry, ModelEntry.mk.injEq] at h ⊢
  exact ⟨trivial, trivial, h.2.2⟩

/-- What a block gives the provider. -/
def terms (pid : ProviderId) (b : Block) : ProviderPolicy × (String → ModelEntry) := (policyOf pid b.2, modelEntry pid b.2)

/-- **The registries are the same when each provider's source says the same.** -/
theorem sameRegistries_iff {cfg cfg' : HarnessConfig} :
    SameRegistries cfg cfg' ↔ ∀ pid, (source cfg pid).map (terms pid) = (source cfg' pid).map (terms pid) := by
  constructor
  · rintro ⟨hpolicies, hmodels⟩ pid
    obtain ⟨modelId, ho⟩ := exists_model pid
    have hp := hpolicies pid
    have hm := hmodels modelId
    rw [get?_loadPolicies, get?_loadPolicies] at hp
    rw [get?_loadModels, get?_loadModels, ho, Option.bind_some, Option.bind_some] at hm
    cases hs : source cfg pid with
    | none =>
      rw [hs] at hp
      cases hs' : source cfg' pid with
      | none => rfl
      | some b => rw [hs'] at hp; cases hp
    | some b =>
      rw [hs] at hp hm
      cases hs' : source cfg' pid with
      | none => rw [hs'] at hp; cases hp
      | some b' =>
        rw [hs'] at hp hm
        have hpolicy : policyOf pid b.2 = policyOf pid b'.2 := Option.some.inj hp
        have hentry : modelEntry pid b.2 = modelEntry pid b'.2 := modelEntry_congr (Option.some.inj hm)
        rw [Option.map_some, Option.map_some, terms, terms, hpolicy, hentry]
  · intro h
    refine ⟨fun pid => ?_, fun modelId => ?_⟩
    · have hp := congrArg (Option.map Prod.fst) (h pid)
      rw [Option.map_map, Option.map_map] at hp
      rw [get?_loadPolicies, get?_loadPolicies]
      exact hp
    · rw [get?_loadModels, get?_loadModels]
      cases ownerOf modelId with
      | none => rfl
      | some pid =>
        have hm := congrArg (Option.map (fun t => t.2 modelId)) (h pid)
        rw [Option.map_map, Option.map_map] at hm
        exact hm

/-! ## Where the source is a block of the provider's own name -/

/-- The last block of the provider's own name. -/
def named (cfg : HarnessConfig) (pid : ProviderId) : Option Block := lastBlock (fun b => Bears b pid) cfg.providers.items

theorem named_spec {cfg : HarnessConfig} {pid : ProviderId} {b : Block} (h : named cfg pid = some b) :
    b ∈ cfg.providers.items ∧ Bears b pid ∧ InForce cfg.providers.items b := by
  obtain ⟨hmem, hb⟩ := lastBlock_sound h
  have hbears : Bears b pid := of_decide_eq_true hb
  refine ⟨hmem, hbears, ?_⟩
  rw [InForce, hbears]
  exact h

theorem named_of_inForce {cfg : HarnessConfig} {pid : ProviderId} {b : Block} (h : InForce cfg.providers.items b)
    (hb : Bears b pid) : named cfg pid = some b := by
  rw [InForce, hb] at h
  exact h

theorem named_reordered {cfg cfg' : HarnessConfig} (h : Reordered cfg cfg') (pid : ProviderId) :
    named cfg' pid = named cfg pid := by
  have hown := fun blocks => @lastBlock_filter (fun b => b.1.toLower = pid.value) _ (fun _ hb => hb) blocks
  show lastBlock (fun b => b.1.toLower = pid.value) cfg'.providers.items =
    lastBlock (fun b => b.1.toLower = pid.value) cfg.providers.items
  rw [← hown cfg'.providers.items, ← h.order, hown]

/-- Without the unknown blocks each source is the provider's own. -/
theorem source_known (cfg : HarnessConfig) (pid : ProviderId) : source (known cfg) pid = named cfg pid := by
  have hfilter : (known cfg).providers.items = cfg.providers.items.filter (fun b => decide (¬ Unknown b)) := rfl
  rw [source, named, hfilter, lastBlock, lastBlock, ← List.filter_reverse, List.find?_filter]
  congr 1
  funext b
  rw [decide_eq_decide, decide_eq_true_eq, decide_eq_true_eq, toProviderId_eq_iff]
  constructor
  · rintro ⟨hk, hb | ⟨-, hu⟩⟩
    · exact hb
    · exact absurd hu hk
  · exact fun hb => ⟨fun hu => hu pid hb, Or.inl hb⟩

theorem toProviderId_congr {a b : Block} (h : a.1.toLower = b.1.toLower) : toProviderId a.1 = toProviderId b.1 := by
  rw [toProviderId, toProviderId, h]

theorem source_spec {cfg : HarnessConfig} {pid : ProviderId} {b : Block} (h : source cfg pid = some b) :
    InForce cfg.providers.items b ∧ (Bears b pid ∨ pid = .ollama ∧ Unknown b) := by
  have hb : toProviderId b.1 = pid := of_decide_eq_true (lastBlock_sound h).2
  refine ⟨lastBlock_of_imp (fun a ha => ?_) (by simp) h, toProviderId_eq_iff.1 hb⟩
  rw [decide_eq_true_eq] at ha ⊢
  exact (toProviderId_congr ha).trans hb

/-- **Where unknown names agree, each source says what the provider's own block says.** -/
theorem UnknownAgree.source {cfg : HarnessConfig} (h : UnknownAgree cfg) (pid : ProviderId) :
    (source cfg pid).map (terms pid) = (named cfg pid).map (terms pid) := by
  cases hs : Broker.source cfg pid with
  | none =>
    have hno := lastBlock_eq_none_iff.1 hs
    cases hn : named cfg pid with
    | none => rfl
    | some o =>
      obtain ⟨hmem, hbears, -⟩ := named_spec hn
      have := hno o hmem
      rw [decide_eq_false_iff_not] at this
      exact absurd hbears.toProviderId this
  | some b =>
    obtain ⟨hforce, hb | ⟨rfl, hu⟩⟩ := source_spec hs
    · rw [named_of_inForce hforce hb]
    · obtain ⟨o, hoforce, hobears, hpolicy, hentry⟩ := h b hforce hu
      rw [named_of_inForce hoforce hobears, Option.map_some, Option.map_some, terms, terms, hpolicy, hentry]

theorem UnknownAgree.reordered {cfg cfg' : HarnessConfig} (h : UnknownAgree cfg) (hr : Reordered cfg cfg') :
    UnknownAgree cfg' := by
  intro u hforce hu
  obtain ⟨o, hoforce, hrest⟩ := h u ((hr.inForce_iff u).2 hforce) hu
  exact ⟨o, (hr.inForce_iff o).1 hoforce, hrest⟩

/-! ## A block moved to the end -/

/-- The blocks of one name, moved to the end. -/
def lastly (name : String) (cfg : HarnessConfig) : HarnessConfig :=
  { cfg with providers :=
    { items := cfg.providers.items.filter (fun b => !decide (b.1.toLower = name)) ++
        cfg.providers.items.filter (fun b => b.1.toLower = name)
      nodup := by
        have hperm := (List.perm_append_comm.trans
          (List.filter_append_perm (fun b : Block => decide (b.1.toLower = name)) cfg.providers.items)).map Prod.fst
        exact hperm.nodup_iff.2 cfg.providers.nodup } }

theorem reordered_lastly (name : String) (cfg : HarnessConfig) : Reordered cfg (lastly name cfg) where
  perm := (List.perm_append_comm.trans
    (List.filter_append_perm (fun b : Block => decide (b.1.toLower = name)) cfg.providers.items)).symm
  order name' := by
    show _ = (cfg.providers.items.filter (fun b => !decide (b.1.toLower = name)) ++
      cfg.providers.items.filter (fun b => b.1.toLower = name)).filter (fun b => b.1.toLower = name')
    rw [List.filter_append, List.filter_filter, List.filter_filter]
    by_cases hn : name' = name
    · subst hn
      simp
    · have hout : cfg.providers.items.filter (fun b => decide (b.1.toLower = name') && decide (b.1.toLower = name)) = [] := by
        refine List.filter_eq_nil_iff.2 (fun b _ hb => ?_)
        simp only [Bool.and_eq_true, decide_eq_true_eq] at hb
        exact hn (hb.1.symm.trans hb.2)
      rw [hout, List.append_nil]
      refine List.filter_congr (fun b _ => ?_)
      by_cases hb : b.1.toLower = name'
      · simp [hb, hn]
      · simp [hb]

/-- The block in force under an unknown name is Ollama's source once the name comes last. -/
theorem source_lastly {cfg : HarnessConfig} {u : Block} (hforce : InForce cfg.providers.items u) (hu : Unknown u) :
    source (lastly u.1.toLower cfg) .ollama = some u := by
  have hlast : lastBlock (fun b => decide (toProviderId b.1 = .ollama))
      (cfg.providers.items.filter (fun b => b.1.toLower = u.1.toLower)) = some u := by
    rw [← hforce, lastBlock, lastBlock, ← List.filter_reverse, List.find?_filter]
    congr 1
    funext b
    rw [decide_eq_decide, decide_eq_true_eq, decide_eq_true_eq, and_iff_left_iff_imp]
    exact fun hb => (toProviderId_congr hb).trans (toProviderId_of_unknown hu)
  rw [source, lastly, lastBlock_append, hlast]
  rfl

/-- **Own blocks only**: exactly when the unknown names agree with Ollama's. -/
theorem ownBlocksOnly_iff (cfg : HarnessConfig) : OwnBlocksOnly cfg ↔ UnknownAgree cfg := by
  constructor
  · intro h u hforce hu
    have hignored := sameRegistries_iff.1 h.ignored .ollama
    rw [source_known] at hignored
    have horder := sameRegistries_iff.1 (h.order _ (reordered_lastly u.1.toLower cfg)) .ollama
    rw [source_lastly hforce hu, hignored] at horder
    -- Ollama has a block of its own, and it says what the unknown one would
    obtain ⟨o, ho, hterms⟩ := Option.map_eq_some_iff.1 horder
    obtain ⟨-, hbears, hoforce⟩ := named_spec ho
    obtain ⟨hpolicy, hentry⟩ := Prod.mk.inj hterms
    exact ⟨o, hoforce, hbears, hpolicy.symm, hentry.symm⟩
  · intro h
    refine ⟨fun pid policy hp => ?_, fun modelId entry hm => ?_, sameRegistries_iff.2 (fun pid => ?_), fun cfg' hr =>
      sameRegistries_iff.2 (fun pid => ?_)⟩
    · have hs := congrArg (Option.map Prod.fst) (h.source pid)
      rw [Option.map_map, Option.map_map] at hs
      rw [get?_loadPolicies] at hp
      obtain ⟨o, ho, rfl⟩ := Option.map_eq_some_iff.1 (hs.symm.trans hp)
      obtain ⟨hmem, hbears, -⟩ := named_spec ho
      exact ⟨o, hmem, hbears, rfl⟩
    · rw [get?_loadModels] at hm
      obtain ⟨pid, -, hm⟩ := Option.bind_eq_some_iff.1 hm
      have hs := congrArg (Option.map (fun t => t.2 modelId)) (h.source pid)
      rw [Option.map_map, Option.map_map] at hs
      obtain ⟨o, ho, rfl⟩ := Option.map_eq_some_iff.1 (hs.symm.trans hm)
      obtain ⟨hmem, hbears, -⟩ := named_spec ho
      exact ⟨o, hmem, hbears, rfl⟩
    · rw [source_known]
      exact h.source pid
    · rw [h.source, (h.reordered hr).source, named_reordered hr]

/-- A mistyped name over a block for Ollama. -/
def mistyped : HarnessConfig where
  providers := ⟨[("ollama", { maxConcurrency := some 1 }), ("olama", { maxConcurrency := some 8 })], by decide⟩

/-- **A mistyped block is Ollama's policy.** -/
theorem mistyped_in_force : ¬ OwnBlocksOnly mistyped := by
  intro h
  have hname : (source mistyped .ollama).map Prod.fst = some "olama" := by decide +kernel
  obtain ⟨u, hu, hlast⟩ := Option.map_eq_some_iff.1 hname
  have hpolicy : (loadPolicies mistyped).get? .ollama = some (policyOf .ollama u.2) := by
    rw [get?_loadPolicies, hu, Option.map_some]
  obtain ⟨o, hmem, hbears, ho⟩ := h.policies .ollama _ hpolicy
  rcases List.mem_cons.1 (lastBlock_sound hu).1 with rfl | hsecond
  · exact absurd hlast (by decide)
  · rw [List.mem_singleton.1 hsecond] at ho
    rcases List.mem_cons.1 hmem with rfl | hmem
    · cases ho
    · rw [List.mem_singleton.1 hmem] at hbears
      exact absurd hbears (by decide +kernel)

end Broker
end DevHarness
