import Mcdma.Kv.Geometry
import Mathlib.Tactic.Ring

/-!
# Which layouts are recognised

A layout says in which order a cache tensor holds its dimensions.  At the
layout's own ratio its sizes are never labelled otherwise; but the sizes can
happen to fit another ratio, and the first ratio that fits is taken.
-/

namespace Mcdma
namespace Kv

/-! ## Layouts -/

/-- The order of a cache tensor's dimensions: keys and values in a dimension
of their own, side by side or neither; or latent rows. -/
structure Layout where
  labels : List Label
  valid : labels.Perm [.block, .token, .head, .headDim] ∨
    labels.Perm [.kv, .block, .token, .head, .headDim] ∨
    labels.Perm [.block, .token, .head, .kvHeadDim] ∨
    labels.Perm [.block, .token, .latent]

/-- The size of a dimension. -/
def dimSize (args : Args) : Label → Nat
  | .block => args.rows
  | .token => args.tokens
  | .head => args.heads
  | .headDim => args.headSize
  | .kv => 2
  | .kvHeadDim => 2 * args.headSize
  | .latent => args.headSize
  | .other _ => 0

namespace Layout

variable (L : Layout)

/-- Whether the rows are latent. -/
def mla : Bool := decide (.latent ∈ L.labels)

/-- The shape of a tensor laid out so. -/
def shape (args : Args) : List Nat := L.labels.map (dimSize args)

/-- A backend with this layout: what its shape function returns is the shape;
it may refuse some arguments. -/
structure Backend where
  probe : Probe
  follows : ∀ args shape, probe args = some shape → shape = L.shape args

/-- What every layout has in common. -/
structure Sound : Prop where
  nodup : L.labels.Nodup
  block : .block ∈ L.labels
  token : .token ∈ L.labels
  head : L.mla = false → .head ∈ L.labels
  plain : L.mla = false → ∀ l ∈ L.labels,
    l ∈ [Label.block, .token, .head, .headDim, .kv, .kvHeadDim]
  latent : L.mla = true → ∀ l ∈ L.labels, l ∈ [Label.block, .token, .latent]
  one : .headDim ∈ L.labels → .kvHeadDim ∉ L.labels
  content : .headDim ∈ L.labels ∨ .kvHeadDim ∈ L.labels ∨ .latent ∈ L.labels

theorem sound : L.Sound := by
  have nodup : L.labels.Nodup := by
    rcases L.valid with perm | perm | perm | perm <;>
      exact perm.nodup_iff.mpr (by decide)
  rcases L.valid with perm | perm | perm | perm <;>
    constructor <;> simp [Layout.mla, perm.mem_iff, nodup]

end Layout

/-! ## Sizes alone -/

section

variable {L : Layout} {args : Args} {labels : List Label} {l : Label}

/-- The true label is among those that a size could stand for. -/
theorem mem_names (here : l ∈ L.labels) (fresh : l ∉ labels)
    (part : ∀ k ∈ labels, k ∈ L.labels) :
    l ∈ names args L.mla labels (dimSize args l) := by
  have sound := L.sound
  cases latent : L.mla with
  | true =>
      have known := sound.latent latent l here
      simp only [List.mem_cons, List.not_mem_nil, or_false] at known
      rcases known with rfl | rfl | rfl <;>
        simp [names, wanted, dimSize, fresh]
  | false =>
      have known := sound.plain latent l here
      simp only [List.mem_cons, List.not_mem_nil, or_false] at known
      rcases known with rfl | rfl | rfl | rfl | rfl | rfl
      · simp [names, wanted, dimSize, fresh]
      · simp [names, wanted, dimSize, fresh]
      · simp [names, wanted, dimSize, fresh]
      · simp [names, wanted, dimSize, fresh]
      · simp [names, wanted, dimSize, fresh]
      · have other : Label.headDim ∉ labels := fun there =>
          sound.one (part _ there) here
        simp [names, wanted, dimSize, fresh, other]

/-- At the layout's own arguments the sizes give its labels or none. -/
theorem bySizeFrom_sound {front back found : List Label}
    (whole : front ++ back = L.labels)
    (labelled : bySizeFrom args L.mla front (back.map (dimSize args)) =
      some found) : found = L.labels := by
  induction back generalizing front with
  | nil =>
      rw [List.append_nil] at whole
      rw [← whole]
      exact (Option.some.inj labelled).symm
  | cons l back inductionHypothesis =>
      have nodup := L.sound.nodup
      rw [← whole] at nodup
      have fresh : l ∉ front := fun there =>
        (List.nodup_append.mp nodup).2.2 l there l List.mem_cons_self rfl
      have member : l ∈ names args L.mla front (dimSize args l) := by
        refine mem_names ?_ fresh fun k there => ?_
        · rw [← whole]
          simp
        · rw [← whole]
          exact List.mem_append_left _ there
      rw [List.map_cons, bySizeFrom] at labelled
      split at labelled
      · next name only =>
          rw [only, List.mem_singleton] at member
          refine inductionHypothesis ?_ labelled
          rw [← member, ← whole, List.append_assoc]
          rfl
      · cases labelled

theorem bySize_sound {found : List Label}
    (labelled : bySize (L.shape args) args L.mla = some found) :
    found = L.labels :=
  bySizeFrom_sound (List.nil_append _) labelled

end

/-! ## Shape functions -/

section

variable {labels : List Label} {size size' : Label → Nat} {l : Label}

theorem changed_none (start : Nat)
    (same : ∀ k ∈ labels, size k = size' k) :
    changed start (labels.map size) (labels.map size') = [] := by
  induction labels generalizing start with
  | nil => rfl
  | cons k labels inductionHypothesis =>
      rw [List.map_cons, List.map_cons, changed,
        if_neg (not_not.mpr (same k List.mem_cons_self))]
      exact inductionHypothesis _ fun j member =>
        same j (List.mem_cons_of_mem _ member)

/-- One dimension changes its size: the index found is where it stands. -/
theorem changed_one (start : Nat) (nodup : labels.Nodup) (here : l ∈ labels)
    (one : ∀ k ∈ labels, size k ≠ size' k ↔ k = l) :
    ∃ index, changed start (labels.map size) (labels.map size') =
        [start + index] ∧ labels[index]? = some l := by
  induction labels generalizing start with
  | nil => cases here
  | cons k labels inductionHypothesis =>
      obtain ⟨fresh, rest⟩ := List.nodup_cons.mp nodup
      rw [List.map_cons, List.map_cons, changed]
      by_cases same : k = l
      · rw [if_pos ((one k List.mem_cons_self).mpr same), changed_none]
        · exact ⟨0, rfl, by rw [same]; rfl⟩
        · intro j member
          by_contra differs
          have hit := (one j (List.mem_cons_of_mem _ member)).mp differs
          rw [hit, ← same] at member
          exact fresh member
      · have later : l ∈ labels :=
          (List.mem_cons.mp here).resolve_left fun eq => same eq.symm
        rw [if_neg fun differs =>
          same ((one k List.mem_cons_self).mp differs)]
        obtain ⟨index, found, place⟩ :=
          inductionHypothesis (start + 1) rest later fun j member =>
            one j (List.mem_cons_of_mem _ member)
        refine ⟨index + 1, ?_, place⟩
        rw [found, Nat.add_assoc, Nat.add_comm 1]

/-- A label set where another stands. -/
theorem set_map (nodup : labels.Nodup) {index : Nat}
    (place : labels[index]? = some l) (f : Label → Option Label)
    (name : Option Label) :
    (labels.map f).set index name =
      labels.map (Function.update f l name) := by
  induction labels generalizing index with
  | nil => cases place
  | cons k labels inductionHypothesis =>
      obtain ⟨fresh, rest⟩ := List.nodup_cons.mp nodup
      cases index with
      | zero =>
          obtain rfl : k = l := Option.some.inj place
          rw [List.map_cons, List.set_cons_zero, List.map_cons,
            Function.update_self]
          congr 1
          refine List.map_congr_left fun j member => ?_
          rw [Function.update_of_ne]
          rintro rfl
          exact fresh member
      | succ index =>
          have later : l ∈ labels := List.mem_of_getElem? place
          rw [List.map_cons, List.set_cons_succ, List.map_cons,
            inductionHypothesis rest place, Function.update_of_ne]
          rintro rfl
          exact fresh later

theorem allLabels_map (f : Label → Label) :
    allLabels (labels.map fun k => some (f k)) = some (labels.map f) := by
  induction labels with
  | nil => rfl
  | cons k labels inductionHypothesis =>
      rw [List.map_cons, allLabels, inductionHypothesis]
      rfl

end

section

variable {L : Layout} {args : Args} {l name : Label} {bump : Args → Args}
  {rest : List (Label × (Args → Args))} {f : Label → Option Label}
  {found : List (Option Label)}

/-- One bump of the loop: the dimension that grows takes the name. -/
theorem owned_step (backend : L.Backend) (here : l ∈ L.labels)
    (one : ∀ k ∈ L.labels,
      dimSize args k ≠ dimSize (bump args) k ↔ k = l)
    (loop : owned (L.shape args) args backend.probe ((name, bump) :: rest)
      (L.labels.map f) = some found) :
    owned (L.shape args) args backend.probe rest
      (L.labels.map (Function.update f l (some name))) = some found := by
  rw [owned] at loop
  split at loop
  · cases loop
  · next other answered =>
      obtain rfl := backend.follows _ _ answered
      obtain ⟨index, hit, place⟩ :=
        changed_one 0 L.sound.nodup here one
      rw [Nat.zero_add] at hit
      rw [Layout.shape, Layout.shape, hit] at loop
      dsimp only at loop
      split at loop
      · rw [set_map L.sound.nodup place] at loop
        exact loop
      · cases loop

/-- The label that a dimension is given: with a head size of zero, one head
and two look alike. -/
def shownAs (args : Args) (l : Label) : Label :=
  if l = .headDim ∧ args.headSize = 0 then .kvHeadDim else l

end

section

variable {L : Layout} {args : Args} {found : List Label}

/-- The dimension that the head size shows. -/
theorem exists_content (L : Layout) : ∃ c ∈ L.labels,
    (c = .headDim ∨ c = .kvHeadDim ∨ c = .latent) ∧
      ∀ k ∈ L.labels, k = .headDim ∨ k = .kvHeadDim ∨ k = .latent → k = c := by
  have sound := L.sound
  by_cases latent : Label.latent ∈ L.labels
  · refine ⟨.latent, latent, by simp, fun k here kind => ?_⟩
    have known := sound.latent (decide_eq_true latent) k here
    rcases kind with rfl | rfl | rfl
    · simp at known
    · simp at known
    · rfl
  · by_cases head : Label.headDim ∈ L.labels
    · refine ⟨.headDim, head, by simp, fun k here kind => ?_⟩
      rcases kind with rfl | rfl | rfl
      · rfl
      · exact absurd here (sound.one head)
      · exact absurd here latent
    · have both := (sound.content.resolve_left head).resolve_right latent
      refine ⟨.kvHeadDim, both, by simp, fun k here kind => ?_⟩
      rcases kind with rfl | rfl | rfl
      · exact absurd here head
      · rfl
      · exact absurd here latent

/-- What the loop over the owners leaves behind. -/
theorem owned_labels (backend : L.Backend) {labels : List (Option Label)}
    (loop : owned (L.shape args) args backend.probe (owners L.mla)
      (List.replicate (L.shape args).length none) = some labels) :
    ∃ f : Label → Option Label, labels = L.labels.map f ∧
      ∀ l ∈ L.labels, settle args L.mla (f l) (dimSize args l) =
        some (shownAs args l) := by
  have sound := L.sound
  have start : List.replicate (L.shape args).length none =
      L.labels.map fun _ => (none : Option Label) := by
    rw [Layout.shape, List.length_map, List.map_const']
  obtain ⟨c, here, kind, only⟩ := exists_content L
  have grown : ∀ k ∈ L.labels, dimSize args k ≠
      dimSize { args with headSize := args.headSize + 16 } k ↔ k = c := by
    intro k member
    constructor
    · intro differs
      refine only k member ?_
      cases k <;> simp [dimSize] at differs ⊢
    · rintro rfl
      rcases kind with rfl | rfl | rfl <;> simp [dimSize]
  rw [start, owners, List.cons_append, List.cons_append,
    List.cons_append] at loop
  have blocks := owned_step backend sound.block
    (fun k _ => by cases k <;> simp [dimSize]) loop
  have tokens := owned_step backend sound.token
    (fun k _ => by cases k <;> simp [dimSize]) blocks
  have contents := owned_step backend here grown tokens
  cases latent : L.mla with
  | true =>
      rw [latent] at contents
      refine ⟨_, (Option.some.inj contents).symm, fun l member => ?_⟩
      have known := sound.latent latent l member
      simp only [List.mem_cons, List.not_mem_nil, or_false] at known
      have last : Label.latent ∈ L.labels := of_decide_eq_true latent
      obtain rfl := only .latent last (by simp)
      rcases known with rfl | rfl | rfl <;>
        simp [settle, shownAs, Function.update]
  | false =>
      rw [latent] at contents
      have heads := owned_step backend (sound.head latent)
        (fun k _ => by cases k <;> simp [dimSize]) contents
      refine ⟨_, (Option.some.inj heads).symm, fun l member => ?_⟩
      have known := sound.plain latent l member
      simp only [List.mem_cons, List.not_mem_nil, or_false] at known
      rcases known with rfl | rfl | rfl | rfl | rfl | rfl
      · rcases kind with rfl | rfl | rfl <;>
          simp [settle, shownAs, Function.update]
      · rcases kind with rfl | rfl | rfl <;>
          simp [settle, shownAs, Function.update]
      · rcases kind with rfl | rfl | rfl <;>
          simp [settle, shownAs, Function.update]
      · obtain rfl := only .headDim member (by simp)
        by_cases zero : args.headSize = 0
        · simp [settle, shownAs, Function.update, dimSize, zero]
        · simp [settle, shownAs, Function.update, dimSize, zero]
      · rcases kind with rfl | rfl | rfl <;>
          simp [settle, shownAs, Function.update, dimSize]
      · obtain rfl := only .kvHeadDim member (by simp)
        simp [settle, shownAs, Function.update, dimSize]

/-- A shape function's labels at the layout's own arguments. -/
theorem byProbe_sound (backend : L.Backend)
    (labelled : byProbe (L.shape args) args L.mla backend.probe =
      some found) : found = L.labels.map (shownAs args) := by
  unfold byProbe at labelled
  split at labelled
  · cases labelled
  · split at labelled
    · cases labelled
    · next labels loop =>
        obtain ⟨f, rfl, settled⟩ := owned_labels backend loop
        rw [Layout.shape, List.zipWith_map, List.zipWith_self,
          List.map_congr_left settled, allLabels_map] at labelled
        exact (Option.some.inj labelled).symm

end

/-! ## The loop over the ratios -/

section

variable {shape : List Nat} {numBlocks blockSize heads headSize : Nat}
  {mla : Bool} {probe : Option Probe}

/-- The loop ends with the first power of two that divides and is labelled. -/
theorem geometryFrom_ok_iff (positive : 0 < blockSize) (fuel i : Nat)
    (enough : blockSize < 2 ^ (i + fuel)) (labels : List Label)
    (ratio : Nat) :
    geometryFrom shape numBlocks blockSize heads headSize mla probe fuel
        (2 ^ i) = .ok (labels, ratio) ↔
      ∃ k, i ≤ k ∧ ratio = 2 ^ k ∧ 2 ^ k ∣ blockSize ∧
        labelsAt shape numBlocks blockSize heads headSize mla probe (2 ^ k) =
          some labels ∧
        ∀ m, i ≤ m → m < k →
          labelsAt shape numBlocks blockSize heads headSize mla probe
            (2 ^ m) = none := by
  induction fuel generalizing i with
  | zero =>
      rw [geometryFrom]
      constructor
      · intro loop
        cases loop
      · rintro ⟨k, later, -, divides, -⟩
        have most := Nat.le_of_dvd positive divides
        have grows : 2 ^ i ≤ 2 ^ k := Nat.pow_le_pow_right (by decide) later
        rw [Nat.add_zero] at enough
        omega
  | succ fuel inductionHypothesis =>
      rw [geometryFrom]
      by_cases tried : 2 ^ i ∣ blockSize
      · rw [if_pos ⟨Nat.mod_eq_zero_of_dvd tried,
          Nat.le_of_dvd positive tried⟩, ← pow_succ]
        have step := inductionHypothesis (i + 1)
          (by rwa [Nat.add_right_comm, Nat.add_assoc])
        cases here : labelsAt shape numBlocks blockSize heads headSize mla
            probe (2 ^ i) with
        | some first =>
            dsimp only
            constructor
            · intro loop
              obtain ⟨rfl, rfl⟩ := Prod.mk.inj (Except.ok.inj loop)
              exact ⟨i, Nat.le_refl i, rfl, tried, here,
                fun m low high => absurd high (by omega)⟩
            · rintro ⟨k, later, rfl, -, labelled, absent⟩
              rcases Nat.eq_or_lt_of_le later with rfl | beyond
              · rw [here] at labelled
                rw [Option.some.inj labelled]
              · rw [absent i (Nat.le_refl i) beyond] at here
                cases here
        | none =>
            dsimp only
            rw [step]
            constructor
            · rintro ⟨k, later, rfl, divides, labelled, absent⟩
              refine ⟨k, by omega, rfl, divides, labelled,
                fun m low high => ?_⟩
              rcases Nat.eq_or_lt_of_le low with rfl | beyond
              · exact here
              · exact absent m beyond high
            · rintro ⟨k, later, rfl, divides, labelled, absent⟩
              rcases Nat.eq_or_lt_of_le later with rfl | beyond
              · rw [here] at labelled
                cases labelled
              · exact ⟨k, beyond, rfl, divides, labelled,
                  fun m low high => absent m (by omega) high⟩
      · rw [if_neg fun both => tried (Nat.dvd_of_mod_eq_zero both.1)]
        constructor
        · intro loop
          cases loop
        · rintro ⟨k, later, -, divides, -⟩
          exact absurd (dvd_trans (pow_dvd_pow 2 later) divides) tried

end

/-! ## Which layouts are recognised -/

section

variable (L : Layout) (numBlocks blockSize heads headSize : Nat)
  (backend : Option L.Backend)

/-- The shape of a cache laid out with a ratio. -/
def cacheShape (ratio : Nat) : List Nat :=
  L.shape (argsAt numBlocks blockSize heads headSize ratio)

/-- What `geometry` makes of it. -/
def recognised (ratio : Nat) : Except String (List Label × Nat) :=
  geometry (cacheShape L numBlocks blockSize heads headSize ratio) numBlocks
    blockSize heads headSize L.mla (backend.map Layout.Backend.probe)

/-- The layout's labels and its ratio are returned, if any are. -/
def Recognised (ratio : Nat) : Prop :=
  ∀ labels found,
    recognised L numBlocks blockSize heads headSize backend ratio =
      .ok (labels, found) → labels = L.labels ∧ found = ratio

/-- A ratio that the loop can try. -/
def Tried (blockSize ratio : Nat) : Prop :=
  blockSize % ratio = 0 ∧ ratio ≤ blockSize

/-- Another ratio fits the sizes of a cache: one of them is its number of
rows, and every dimension can hold one thing only. -/
def Explains (ratio other : Nat) : Prop :=
  Tried blockSize other ∧
    numBlocks * other ∈
      cacheShape L numBlocks blockSize heads headSize ratio ∧
    (bySize (cacheShape L numBlocks blockSize heads headSize ratio)
      (argsAt numBlocks blockSize heads headSize other) L.mla).isSome = true

/-- No smaller ratio fits the sizes, and no larger one if the layout's own is
not recognised; and a shape function does not show a head size of zero. -/
structure Unambiguous (k : Nat) : Prop where
  before : ∀ m < k,
    ¬ Explains L numBlocks blockSize heads headSize (2 ^ k) (2 ^ m)
  here : Tried blockSize (2 ^ k) → headSize = 0 → .headDim ∈ L.labels →
    (backend.bind fun backend =>
      byProbe (cacheShape L numBlocks blockSize heads headSize (2 ^ k))
        (argsAt numBlocks blockSize heads headSize (2 ^ k)) L.mla
        backend.probe) = none
  after : labelsAt
      (cacheShape L numBlocks blockSize heads headSize (2 ^ k)) numBlocks
      blockSize heads headSize L.mla (backend.map Layout.Backend.probe)
      (2 ^ k) = none →
    ∀ m > k, ¬ Explains L numBlocks blockSize heads headSize (2 ^ k) (2 ^ m)

variable {L numBlocks blockSize heads headSize backend}

/-- At another ratio the shape function gives another shape. -/
theorem byProbe_other (positive : 0 < blockSize) {ratio other : Nat}
    (divides : ratio ∣ blockSize) (otherDivides : other ∣ blockSize)
    (differs : other ≠ ratio) (backend : L.Backend) :
    byProbe (cacheShape L numBlocks blockSize heads headSize ratio)
      (argsAt numBlocks blockSize heads headSize other) L.mla
      backend.probe = none := by
  rw [byProbe, if_pos]
  intro answered
  have same := backend.follows _ _ answered
  rw [cacheShape, Layout.shape, Layout.shape] at same
  have tokens := List.map_inj_left.mp same .token L.sound.token
  have quotient : blockSize / ratio = blockSize / other := tokens
  obtain ⟨t, whole⟩ := divides
  obtain ⟨u, whole'⟩ := otherDivides
  have ratioPos : 0 < ratio := Nat.pos_of_ne_zero fun zero => by
    rw [zero, Nat.zero_mul] at whole
    omega
  have otherPos : 0 < other := Nat.pos_of_ne_zero fun zero => by
    rw [zero, Nat.zero_mul] at whole'
    omega
  have first : blockSize / ratio = t := by
    rw [whole, Nat.mul_div_cancel_left t ratioPos]
  have second : blockSize / other = u := by
    rw [whole', Nat.mul_div_cancel_left u otherPos]
  have equal : t = u := by rw [← first, ← second, quotient]
  have tokensPos : 0 < t := Nat.pos_of_ne_zero fun zero => by
    rw [zero, Nat.mul_zero] at whole
    omega
  refine differs (Nat.eq_of_mul_eq_mul_right tokensPos ?_)
  rw [← whole, equal, ← whole']

variable (backend) in
/-- At another ratio only the sizes count. -/
theorem labelsAt_other (positive : 0 < blockSize) {ratio other : Nat}
    (divides : ratio ∣ blockSize) (otherDivides : other ∣ blockSize)
    (differs : other ≠ ratio) :
    (labelsAt (cacheShape L numBlocks blockSize heads headSize ratio)
      numBlocks blockSize heads headSize L.mla
      (backend.map Layout.Backend.probe) other = none) ↔
        ¬ Explains L numBlocks blockSize heads headSize ratio other := by
  have tried : Tried blockSize other :=
    ⟨Nat.mod_eq_zero_of_dvd otherDivides,
      Nat.le_of_dvd positive otherDivides⟩
  have refused : ((backend.map Layout.Backend.probe).bind fun probe =>
      byProbe (cacheShape L numBlocks blockSize heads headSize ratio)
        (argsAt numBlocks blockSize heads headSize other) L.mla probe) =
          none := by
    cases backend with
    | none => rfl
    | some backend =>
        exact byProbe_other positive divides otherDivides differs backend
  rw [labelsAt, refused, Explains]
  by_cases there : numBlocks * other ∈
      cacheShape L numBlocks blockSize heads headSize ratio
  · simp [argsAt, tried, there]
  · simp [argsAt, there]

theorem map_shownAs {args : Args} :
    L.labels.map (shownAs args) = L.labels ↔
      ¬ (args.headSize = 0 ∧ .headDim ∈ L.labels) := by
  have fixed : L.labels.map (shownAs args) = L.labels ↔
      ∀ l ∈ L.labels, shownAs args l = id l := by
    rw [← List.map_inj_left, List.map_id]
  rw [fixed]
  constructor
  · rintro same ⟨zero, here⟩
    have eq := same .headDim here
    simp [shownAs, zero] at eq
  · intro neither l here
    rw [shownAs, if_neg]
    · rfl
    · rintro ⟨rfl, zero⟩
      exact neither ⟨zero, here⟩

/-- The labels at the layout's own ratio. -/
theorem labelsAt_eq (k : Nat) :
    labelsAt (cacheShape L numBlocks blockSize heads headSize (2 ^ k))
      numBlocks blockSize heads headSize L.mla
      (backend.map Layout.Backend.probe) (2 ^ k) =
        match backend.bind fun backend =>
          byProbe (cacheShape L numBlocks blockSize heads headSize (2 ^ k))
            (argsAt numBlocks blockSize heads headSize (2 ^ k)) L.mla
            backend.probe with
        | some labels => some labels
        | none =>
            bySize (cacheShape L numBlocks blockSize heads headSize (2 ^ k))
              (argsAt numBlocks blockSize heads headSize (2 ^ k)) L.mla := by
  have rows : (argsAt numBlocks blockSize heads headSize (2 ^ k)).rows ∈
      cacheShape L numBlocks blockSize heads headSize (2 ^ k) :=
    List.mem_map_of_mem L.sound.block
  rw [labelsAt, if_pos rows]
  cases backend <;> rfl

/-- They are the layout's, unless a head size of zero was shown. -/
theorem labelsAt_own {k : Nat} {labels : List Label}
    (labelled : labelsAt
      (cacheShape L numBlocks blockSize heads headSize (2 ^ k)) numBlocks
      blockSize heads headSize L.mla (backend.map Layout.Backend.probe)
      (2 ^ k) = some labels) :
    labels = L.labels ↔ (headSize = 0 → .headDim ∈ L.labels →
      (backend.bind fun backend =>
        byProbe (cacheShape L numBlocks blockSize heads headSize (2 ^ k))
          (argsAt numBlocks blockSize heads headSize (2 ^ k)) L.mla
          backend.probe) = none) := by
  rw [labelsAt_eq] at labelled
  cases shown : (backend.bind fun backend =>
      byProbe (cacheShape L numBlocks blockSize heads headSize (2 ^ k))
        (argsAt numBlocks blockSize heads headSize (2 ^ k)) L.mla
        backend.probe) with
  | none =>
      rw [shown] at labelled
      simpa using bySize_sound labelled
  | some found =>
      rw [shown] at labelled
      obtain rfl : found = labels := Option.some.inj labelled
      obtain ⟨given, -, answered⟩ := Option.bind_eq_some_iff.mp shown
      rw [byProbe_sound given answered, map_shownAs]
      simp [argsAt]

/-- A ratio with labels is found, or a smaller one is. -/
theorem recognised_of_labelsAt (positive : 0 < blockSize) {ratio m : Nat}
    (divides : 2 ^ m ∣ blockSize)
    (labelled : labelsAt
      (cacheShape L numBlocks blockSize heads headSize ratio) numBlocks
      blockSize heads headSize L.mla (backend.map Layout.Backend.probe)
      (2 ^ m) ≠ none) :
    ∃ labels n, n ≤ m ∧
      labelsAt (cacheShape L numBlocks blockSize heads headSize ratio)
        numBlocks blockSize heads headSize L.mla
        (backend.map Layout.Backend.probe) (2 ^ n) = some labels ∧
      recognised L numBlocks blockSize heads headSize backend ratio =
        .ok (labels, 2 ^ n) := by
  classical
  have reached : ∃ n, labelsAt
      (cacheShape L numBlocks blockSize heads headSize ratio) numBlocks
      blockSize heads headSize L.mla (backend.map Layout.Backend.probe)
      (2 ^ n) ≠ none := ⟨m, labelled⟩
  have least := Nat.find_min' reached labelled
  obtain ⟨labels, found⟩ :=
    Option.ne_none_iff_exists'.mp (Nat.find_spec reached)
  refine ⟨labels, Nat.find reached, least, found, ?_⟩
  refine (geometryFrom_ok_iff positive (blockSize + 1) 0 ?_ labels _).mpr
    ⟨Nat.find reached, Nat.zero_le _, rfl,
      dvd_trans (pow_dvd_pow 2 least) divides, found, fun n _ below => ?_⟩
  · rw [Nat.zero_add]
    exact lt_trans (Nat.lt_succ_self _) Nat.lt_two_pow_self
  · exact not_not.mp (Nat.find_min reached below)

/-- A cache is labelled as it is laid out, or refused, exactly if no other
ratio is taken for the layout's own. -/
theorem recognised_iff {k : Nat} (divides : 2 ^ k ∣ blockSize) :
    Recognised L numBlocks blockSize heads headSize backend (2 ^ k) ↔
      Unambiguous L numBlocks blockSize heads headSize backend k := by
  rcases Nat.eq_zero_or_pos blockSize with rfl | positive
  · have never : ∀ m, ¬ Tried 0 (2 ^ m) := fun m tried =>
      absurd tried.2 (Nat.not_le.mpr (Nat.two_pow_pos m))
    refine iff_of_true ?_ ⟨fun m _ fits => never m fits.1,
      fun tried => absurd tried (never k), fun _ m _ fits => never m fits.1⟩
    intro labels found same
    cases same
  have tried : Tried blockSize (2 ^ k) :=
    ⟨Nat.mod_eq_zero_of_dvd divides, Nat.le_of_dvd positive divides⟩
  have apart : ∀ m, m ≠ k → 2 ^ m ≠ 2 ^ k := fun m differs same =>
    differs (Nat.pow_right_injective (le_refl 2) same)
  constructor
  · intro recognised
    have before : ∀ m < k,
        ¬ Explains L numBlocks blockSize heads headSize (2 ^ k) (2 ^ m) := by
      intro m below fits
      have part := dvd_trans (pow_dvd_pow 2 (Nat.le_of_lt below)) divides
      obtain ⟨labels, n, most, -, same⟩ := recognised_of_labelsAt positive part
        fun absent => (labelsAt_other backend positive divides part
          (apart m (by omega))).mp absent fits
      exact apart n (by omega) (recognised _ _ same).2
    refine ⟨before, fun _ => ?_, fun absent m beyond fits => ?_⟩
    · cases own : labelsAt
          (cacheShape L numBlocks blockSize heads headSize (2 ^ k)) numBlocks
          blockSize heads headSize L.mla (backend.map Layout.Backend.probe)
          (2 ^ k) with
      | none =>
          intro _ _
          rw [labelsAt_eq] at own
          split at own
          · cases own
          · next shown => exact shown
      | some labels =>
          obtain ⟨first, n, most, found, same⟩ := recognised_of_labelsAt
            positive divides fun absent => by
              rw [own] at absent
              cases absent
          obtain ⟨right, equal⟩ := recognised _ _ same
          rw [equal] at found
          exact (labelsAt_own found).mp right
    · have part := Nat.dvd_of_mod_eq_zero fits.1.1
      obtain ⟨labels, n, most, found, same⟩ := recognised_of_labelsAt positive
        part fun absent => (labelsAt_other backend positive divides part
          (apart m (by omega))).mp absent fits
      rw [(recognised _ _ same).2, absent] at found
      cases found
  · rintro ⟨before, here, after⟩ labels found same
    obtain ⟨m, -, rfl, part, labelled, absent⟩ :=
      (geometryFrom_ok_iff positive (blockSize + 1) 0 (by
        rw [Nat.zero_add]
        exact lt_trans (Nat.lt_succ_self _) Nat.lt_two_pow_self)
        labels found).mp same
    rcases Nat.lt_trichotomy m k with below | rfl | beyond
    · rw [(labelsAt_other backend positive divides part
        (apart m (by omega))).mpr
        (before m below)] at labelled
      cases labelled
    · exact ⟨(labelsAt_own labelled).mpr (here tried), rfl⟩
    · rw [(labelsAt_other backend positive divides part
        (apart m (by omega))).mpr
        (after (absent k (Nat.zero_le k) beyond) m beyond)] at labelled
      cases labelled

end

/-- Blocks, tokens, heads and keys. -/
def plainLayout : Layout where
  labels := [.block, .token, .head, .headDim]
  valid := Or.inl (List.Perm.refl _)

/-- The shape function of a layout. -/
def Layout.backend (L : Layout) : L.Backend where
  probe := fun args => some (L.shape args)
  follows := fun _ _ same => (Option.some.inj same).symm

/-- A block of the scheduler in two rows of the tensor. -/
theorem recognised_two_rows :
    Recognised plainLayout 100 32 4 128 (some plainLayout.backend) (2 ^ 1) := by
  refine (recognised_iff (by decide)).mpr ⟨?_, fun _ zero => ?_, fun absent => ?_⟩
  · intro m below fits
    obtain rfl : m = 0 := by omega
    have rows := fits.2.1
    revert rows
    decide
  · cases zero
  · have labelled : labelsAt (cacheShape plainLayout 100 32 4 128 (2 ^ 1)) 100
        32 4 128 plainLayout.mla
        ((some plainLayout.backend).map Layout.Backend.probe) (2 ^ 1) ≠
          none := by decide
    exact absurd absent labelled

/-- Four blocks of eight tokens in two rows each: with a ratio of one the
tokens count as blocks, also when the backend's shape function is known. -/
theorem recognised_swapped :
    recognised plainLayout 4 8 3 5 (some plainLayout.backend) 2 =
        .ok ([.token, .block, .head, .headDim], 1) ∧
      ¬ ∀ (L : Layout) (numBlocks blockSize heads headSize k : Nat)
        (backend : Option L.Backend), 2 ^ k ∣ blockSize →
          Recognised L numBlocks blockSize heads headSize backend (2 ^ k) := by
  have swapped : recognised plainLayout 4 8 3 5 (some plainLayout.backend) 2 =
      .ok ([.token, .block, .head, .headDim], 1) := by rfl
  refine ⟨swapped, fun all => ?_⟩
  have right := (all plainLayout 4 8 3 5 1 (some plainLayout.backend)
    (by decide) _ _ swapped).2
  cases right

end Kv
end Mcdma
