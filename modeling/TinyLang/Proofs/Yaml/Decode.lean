import TinyLang.Yaml.Decode
import TinyLang.Proofs.Yaml.Node

/-!
# Decoding a record

Decoding that meets no problem and follows no alias: `Decode.Gives` says that it gives a value and
leaves nothing behind, so that such steps compose.

* `Decode.Gives.record`: a mapping whose keys are different fields sets them one after the other.
-/

namespace TinyLang.Yaml

/-- Nothing has gone wrong, and neither an alias nor a merge is being followed. -/
structure Progress.Smooth (p : Progress) : Prop where
  problems : p.problems = []
  repeated : p.repeated = 0
  following : p.following = []
  taken : p.taken = none

/-- A tag under which every scalar is a text. -/
def IsTextTag (tag : Text) : Prop := isMeaning tag = false ∧ tag ≠ binaryTag

instance : DecidablePred IsTextTag := fun tag =>
  inferInstanceAs (Decidable (isMeaning tag = false ∧ tag ≠ binaryTag))

/-- The node of a number is a scalar of this text. -/
def Document.TextAt (d : Document) (id : Nat) (t : Text) : Prop :=
  ∃ tag line, d.node id = .scalar tag t line ∧ IsTextTag tag

namespace Decode

variable {d : Document} {α β : Type} {x : Decode α} {a : α} {b : β}

/-- Decoding gives a value. -/
def Gives (d : Document) (x : Decode α) (a : α) : Prop :=
  ∀ p : Progress, p.Smooth → ∃ p', (x.run d).run p = .ok (a, p') ∧ p'.Smooth

namespace Gives

theorem pure (a : α) : Gives d (Pure.pure a) a := fun p hp => ⟨p, rfl, hp⟩

theorem bind {f : α → Decode β} (hx : Gives d x a) (hf : Gives d (f a) b) : Gives d (x >>= f) b := by
  intro p hp
  obtain ⟨p₁, hrun, hp₁⟩ := hx p hp
  obtain ⟨p₂, hrun', hp₂⟩ := hf p₁ hp₁
  refine ⟨p₂, ?_, hp₂⟩
  rw [ReaderT.run_bind, run_bind_ok hrun, hrun']

theorem read : Gives d (MonadReader.read : Decode Document) d := fun p hp => ⟨p, rfl, hp⟩

theorem get_bind {f : Progress → Decode β} (hf : ∀ p : Progress, p.Smooth → Gives d (f p) b) :
    Gives d (MonadState.get >>= f) b :=
  fun p hp => hf p hp p hp

theorem setTaken : Gives d (Decode.setTaken none) () :=
  fun p hp => ⟨{ p with taken := none }, rfl, hp.problems, hp.repeated, hp.following, rfl⟩

theorem count : Gives d Decode.count () := by
  intro p hp
  have hcount : p.count.Smooth :=
    ⟨hp.problems, by simp [Progress.count, hp.following, hp.repeated], hp.following, hp.taken⟩
  have hexcessive : p.count.isExcessive = false := by
    simp [Progress.isExcessive, hcount.repeated]
  refine ⟨p.count, ?_, hcount⟩
  change ((if p.count.isExcessive = true then fail "document contains excessive aliasing"
    else Pure.pure () : Decode Unit).run d).run p.count = _
  rw [hexcessive]
  rfl

theorem through {decode : Node → Decode α} {id : Nat} {n : Node} (hn : d.node id = n)
    (halias : ∀ name target line, n ≠ .aliased name target line) (h : Gives d (decode n) a) :
    Gives d (Decode.through id decode) a := by
  unfold Decode.through
  refine count.bind (read.bind ?_)
  rw [hn]
  split
  · exact absurd rfl (halias _ _ _)
  · exact h

/-! ## Scalars -/

/-- The value of a scalar whose tag and text fit. -/
theorem simple {wanted : Text} {take : Text → Value → Option α} {id line : Nat} {tag text : Text}
    {v : Value} (hn : d.node id = .scalar tag text line) (htag : tag ≠ binaryTag)
    (hvalue : valueOf tag text = .ok v) (hnull : v ≠ .null) (htake : take text v = some a) :
    Gives d (Decode.simple wanted take id) (some a) := by
  refine through hn (by simp) ?_
  have hscalar : Gives d (scalarValue tag text) v := by
    rw [scalarValue, if_neg htag, hvalue]
    exact .pure v
  refine hscalar.bind ?_
  split
  · exact absurd rfl hnull
  · rw [htake]
    exact .pure (some a)

theorem text {id : Nat} {t : Text} (h : d.TextAt id t) : Gives d (Decode.text id) (some t) := by
  obtain ⟨tag, line, hn, hmeaning, hbinary⟩ := h
  refine simple (v := .text t) hn hbinary ?_ (by simp) rfl
  rw [valueOf, if_neg (by simp [hmeaning])]

/-! ## Records -/

end Gives

theorem repeatedKeys_eq_nil {ns : List Node} (h : (ns.map keyIdentity).Nodup) :
    repeatedKeys ns = [] := by
  induction ns with
  | nil => rfl
  | cons n ns ih =>
    obtain ⟨hn, hns⟩ := List.nodup_cons.mp h
    have hfilter : (ns.filter fun l => keyIdentity l == keyIdentity n) = [] := by
      rw [List.filter_eq_nil_iff]
      intro l hl heq
      exact hn (List.mem_map.mpr ⟨l, hl, by simpa using heq⟩)
    rw [repeatedKeys, hfilter, ih hns]
    rfl

/-- A plain key that is a field of a record and asks for no merge. -/
def IsKey {σ : Type} (schema : Schema σ) (key : Text) : Prop :=
  IsTextTag (ownTag key true) ∧ key ≠ "<<" ∧ key ∈ schema.fields

instance {σ : Type} (schema : Schema σ) : DecidablePred (IsKey schema) := fun key =>
  inferInstanceAs (Decidable (IsTextTag (ownTag key true) ∧ key ≠ "<<" ∧ key ∈ schema.fields))

/-- Keys of a record at consecutive places, each before a value that sets the field of that name. -/
inductive Sets {σ : Type} (d : Document) (schema : Schema σ) : Nat → σ → List Text → σ → Prop
  | nil {base : Nat} {r : σ} : Sets d schema base r [] r
  | cons {base : Nat} {r r' r'' : σ} {key : Text} {keys : List Text} (hkey : d.TextAt base key)
      (hmerge : key ≠ "<<") (hfield : key ∈ schema.fields)
      (hset : Gives d (schema.set r key (base + 1)) r')
      (hrest : Sets d schema (base + 2) r' keys r'') : Sets d schema base r (key :: keys) r''

namespace Sets

variable {σ : Type} {schema : Schema σ} {base : Nat} {r r' : σ} {keys : List Text}

/-- The pairs at consecutive places, from one on. -/
def pairs (base : Nat) (keys : List Text) : List (Nat × Nat) :=
  Node.pairsOf (List.range' base (2 * keys.length))

theorem pairs_cons (base : Nat) (key : Text) (keys : List Text) :
    pairs base (key :: keys) = (base, base + 1) :: pairs (base + 2) keys := rfl

theorem identities (h : Sets d schema base r keys r') :
    ((pairs base keys).map fun pair => d.node pair.1).map keyIdentity =
    keys.map fun key => (0, key) := by
  induction h with
  | nil => rfl
  | cons hkey hmerge hfield hset hrest ih =>
    obtain ⟨tag, line, hn, -⟩ := hkey
    rw [pairs_cons, List.map_cons, List.map_cons, List.map_cons, ih, hn]
    rfl

theorem not_isMerge (h : Sets d schema base r keys r') :
    ∀ pair ∈ pairs base keys, (d.node pair.1).isMerge = false := by
  induction h with
  | nil => simp [pairs, Node.pairsOf]
  | cons hkey hmerge hfield hset hrest ih =>
    obtain ⟨tag, line, hn, -⟩ := hkey
    rw [pairs_cons]
    simpa [hn, Node.isMerge, hmerge] using ih

/-- One pair sets its field. -/
theorem takePair {r₁ : σ} {key : Text} {done : List Text} (hkey : d.TextAt base key)
    (hmerge : key ≠ "<<")
    (hfield : key ∈ schema.fields) (hset : Gives d (schema.set r key (base + 1)) r₁)
    (hdone : key ∉ done) :
    Gives d (Decode.takePair (recordSink schema) ((r, done), none) (base, base + 1))
      ((r₁, key :: done), none) := by
  have hread : Gives d ((recordSink schema).key base) (some (.ofText key)) :=
    (Gives.text hkey).bind (.pure _)
  have hput : Gives d ((recordSink schema).put (r, done) (.ofText key) base (base + 1))
      (r₁, key :: done) := by
    refine Gives.read.bind ?_
    dsimp only
    rw [if_neg (by simpa using hfield), if_neg (by simpa using hdone)]
    exact hset.bind (.pure _)
  obtain ⟨tag, line, hn, -⟩ := hkey
  refine Gives.read.bind ?_
  rw [if_neg (by simp [hn, Node.isMerge, hmerge])]
  exact hread.bind (hput.bind (.pure _))

theorem foldlM (h : Sets d schema base r keys r') (hkeys : keys.Nodup) (done : List Text)
    (hdone : ∀ key ∈ keys, key ∉ done) :
    ∃ done', Gives d ((pairs base keys).foldlM (Decode.takePair (recordSink schema))
      ((r, done), none)) ((r', done'), none) := by
  induction h generalizing done with
  | nil => exact ⟨done, .pure _⟩
  | @cons base r r₁ r₂ key keys hkey hmerge hfield hset hrest ih =>
    obtain ⟨hnew, hkeys⟩ := List.nodup_cons.mp hkeys
    have hlater : ∀ k ∈ keys, k ∉ key :: done := by
      intro k hk hmem
      rcases List.mem_cons.mp hmem with rfl | hmem
      · exact hnew hk
      · exact hdone k (by simp [hk]) hmem
    obtain ⟨done', hfold⟩ := ih hkeys _ hlater
    refine ⟨done', ?_⟩
    rw [pairs_cons, List.foldlM_cons]
    exact (takePair hkey hmerge hfield hset (hdone key (by simp))).bind hfold

/-- Different keys are no problem. -/
theorem keysApart (h : Sets d schema base r keys r') (hkeys : keys.Nodup) :
    Gives d (Decode.keysApart (pairs base keys)) true := by
  have hnodup : (keys.map fun key => (0, key)).Nodup :=
    List.pairwise_map.mpr (hkeys.imp fun hne heq => hne (Prod.mk.inj heq).2)
  rw [← h.identities] at hnodup
  have hnone := repeatedKeys_eq_nil hnodup
  refine Gives.read.bind ?_
  dsimp only
  rw [hnone]
  exact .pure true

theorem mapping (h : Sets d schema base r keys r') (hkeys : keys.Nodup)
    (free : Nat → Decode (Option Data)) (fuel : Nat) :
    ∃ done, Gives d (Decode.mapping free (recordSink schema) (fuel + 1) (pairs base keys) (r, []))
      (some (r', done)) := by
  obtain ⟨done, hfold⟩ := h.foldlM hkeys [] (by simp)
  have hmerge : Gives d (mergeSources? (pairs base keys)) none := by
    have hfind : (pairs base keys).reverse.find? (fun pair => (d.node pair.1).isMerge) = none := by
      rw [List.find?_eq_none]
      intro pair hpair
      simp [h.not_isMerge pair (List.mem_reverse.mp hpair)]
    refine Gives.read.bind ?_
    rw [hfind]
    exact .pure none
  refine ⟨done, (h.keysApart hkeys).bind ?_⟩
  refine Gives.get_bind fun p hp => ?_
  rw [hp.taken]
  exact Gives.setTaken.bind (hfold.bind (Gives.setTaken.bind (hmerge.bind (.pure _))))

/-- Entries whose keys are fields set them one after the other. -/
theorem of_holds {es : List Entry}
    (h : d.Holds base es) (put : σ → Entry → σ)
    (hkeys : ∀ e ∈ es, IsKey schema e.key)
    (hset : ∀ e ∈ es, ∀ r id line, d.node id = .scalar (ownTag e.text e.plain) e.text line →
      Gives d (schema.set r e.key id) (put r e)) (r : σ) :
    Sets d schema base r (es.map Entry.key) (es.foldl put r) := by
  induction es generalizing base r with
  | nil => exact .nil
  | cons e es ih =>
    obtain ⟨⟨line, hkey⟩, ⟨line', htext⟩, hrest⟩ := h
    obtain ⟨⟨htag, hmerge, hfield⟩, hkeys⟩ := List.forall_mem_cons.mp hkeys
    obtain ⟨hset, hsets⟩ := List.forall_mem_cons.mp hset
    exact .cons ⟨_, line, hkey, htag⟩ hmerge hfield (hset r _ line' htext) (ih hrest hkeys hsets _)

theorem append {r'' : σ} {keys' : List Text} (h : Sets d schema base r keys r')
    (h' : Sets d schema (base + 2 * keys.length) r' keys' r'') :
    Sets d schema base r (keys ++ keys') r'' := by
  induction h with
  | nil => exact h'
  | cons hkey hmerge hfield hset hrest ih =>
    refine .cons hkey hmerge hfield hset (ih ?_)
    have hbase : ∀ b n : Nat, b + 2 * (n + 1) = b + 2 + 2 * n := by omega
    rwa [List.length_cons, hbase] at h'

end Sets

/-- **A record** of different fields is decoded field by field. -/
theorem Gives.record {σ : Type} {schema : Schema σ} {base id line : Nat} {r r' : σ}
    {keys : List Text} {tag : Text}
    (hn : d.node id = .mapping tag (Sets.pairs base keys) line) (h : Sets d schema base r keys r')
    (hkeys : keys.Nodup) (fuel : Nat) : Gives d (Decode.record schema (fuel + 1) r id) r' := by
  obtain ⟨done, hmapping⟩ := h.mapping hkeys (data (fuel + 1)) fuel
  exact through hn (by simp) (hmapping.bind (.pure _))

end Decode

/-- **A document** that gives a record and no problem. -/
theorem Document.record_eq {σ : Type} {d : Document} {schema : Nat → Decode.Schema σ} {r r' : σ}
    (h : ∀ fuel, Decode.Gives d (Decode.record (schema (fuel + 1)) (fuel + 1) r d.root) r') :
    d.record schema r = .ok r' := by
  obtain ⟨fuel, hfuel⟩ : ∃ fuel, (d.nodes.size + 2) * (d.nodes.size + 2) = fuel + 1 :=
    Nat.exists_eq_succ_of_ne_zero (by simp)
  have hdecode : Decode.Gives d
      (do Decode.count; Decode.record (schema (fuel + 1)) (fuel + 1) r d.root) r' :=
    Decode.Gives.count.bind (h fuel)
  obtain ⟨p, hrun, hp⟩ := hdecode {} ⟨rfl, rfl, rfl, rfl⟩
  unfold Document.record
  rw [hfuel]
  dsimp only
  rw [hrun]
  change (if p.problems.isEmpty = true then Except.ok r' else throw
    (Error.types p.problems.reverse)) = _
  rw [hp.problems]
  rfl

end TinyLang.Yaml
