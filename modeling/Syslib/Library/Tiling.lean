import Mathlib.Algebra.Ring.Nat
import Mathlib.Data.List.Basic
import Mathlib.Data.List.Nodup
import Mathlib.Data.List.Pairwise

namespace Syslib.Tiling

variable {Tile : Type*} {start size : Tile → Nat} {lo hi : Nat}

/-- The tiles stand one behind the other without a gap. -/
def Tiles (start size : Tile → Nat) : List Tile → Nat → Nat → Prop
  | [], lo, hi => lo = hi
  | tile :: rest, lo, hi => start tile = lo ∧ 0 < size tile ∧ Tiles start size rest (lo + size tile) hi

theorem Tiles.congr {newStart newSize : Tile → Nat} {tiles : List Tile} (tiling : Tiles start size tiles lo hi)
    (same : ∀ tile ∈ tiles, newStart tile = start tile ∧ newSize tile = size tile) :
    Tiles newStart newSize tiles lo hi := by
  induction tiles generalizing lo with
  | nil => exact tiling
  | cons tile rest ih =>
      obtain ⟨here, positive, behind⟩ := tiling
      obtain ⟨sameStart, sameSize⟩ := same tile List.mem_cons_self
      refine ⟨sameStart.trans here, sameSize ▸ positive, ?_⟩
      rw [sameSize]
      exact ih behind fun later member => same later (List.mem_cons_of_mem _ member)

theorem tiles_append {first second : List Tile} :
    Tiles start size (first ++ second) lo hi ↔
      ∃ middle, Tiles start size first lo middle ∧ Tiles start size second middle hi := by
  induction first generalizing lo with
  | nil => simp [Tiles]
  | cons tile rest ih =>
      simp only [List.cons_append, Tiles, ih]
      constructor
      · intro tiling
        obtain ⟨here, positive, middle, left, right⟩ := tiling
        exact ⟨middle, ⟨here, positive, left⟩, right⟩
      · intro tiling
        obtain ⟨middle, ⟨here, positive, left⟩, right⟩ := tiling
        exact ⟨here, positive, middle, left, right⟩

/-- Another row of tiles over the same range may stand at the place of one row. -/
theorem Tiles.replace {front row other back : List Tile} {newStart newSize : Tile → Nat}
    (tiling : Tiles start size (front ++ row ++ back) lo hi)
    (same : ∀ tile, tile ∈ front ∨ tile ∈ back → newStart tile = start tile ∧ newSize tile = size tile)
    (covers : ∀ left right, Tiles start size row left right → Tiles newStart newSize other left right) :
    Tiles newStart newSize (front ++ other ++ back) lo hi := by
  obtain ⟨right, inner, after⟩ := tiles_append.mp tiling
  obtain ⟨left, before, middle⟩ := tiles_append.mp inner
  have before' : Tiles newStart newSize front lo left :=
    before.congr fun tile member => same tile (Or.inl member)
  have after' : Tiles newStart newSize back right hi :=
    after.congr fun tile member => same tile (Or.inr member)
  exact tiles_append.mpr ⟨right, tiles_append.mpr ⟨left, before', covers left right middle⟩, after'⟩

/-- A tile is the last one, or the next one starts where it ends. -/
theorem Tiles.next {tiles : List Tile} (tiling : Tiles start size tiles lo hi) {tile : Tile}
    (member : tile ∈ tiles) : start tile + size tile = hi ∨
      ∃ front later back, tiles = front ++ [tile, later] ++ back ∧ start later = start tile + size tile := by
  obtain ⟨front, rest, rfl⟩ := List.append_of_mem member
  obtain ⟨middle, -, here, -, behind⟩ := tiles_append.mp tiling
  cases rest with
  | nil => exact Or.inl (here ▸ behind)
  | cons later back => exact Or.inr ⟨front, later, back, by simp, behind.1.trans (by rw [here])⟩

/-- A tile is the first one, or the one before it ends where it starts. -/
theorem Tiles.previous {tiles : List Tile} (tiling : Tiles start size tiles lo hi) {tile : Tile}
    (member : tile ∈ tiles) : start tile = lo ∨
      ∃ front prior back, tiles = front ++ [prior, tile] ++ back ∧ start prior + size prior = start tile := by
  obtain ⟨front, back, rfl⟩ := List.append_of_mem member
  obtain ⟨middle, before, here, -, -⟩ := tiles_append.mp tiling
  rcases List.eq_nil_or_concat front with rfl | ⟨earlier, prior, rfl⟩
  · exact Or.inl (here.trans (Eq.symm before))
  · obtain ⟨inner, -, place, -, stop⟩ := tiles_append.mp (List.concat_eq_append ▸ before)
    refine Or.inr ⟨earlier, prior, back, by simp, ?_⟩
    rw [here, place]
    exact stop

theorem Tiles.le {tiles : List Tile} (tiling : Tiles start size tiles lo hi) : lo ≤ hi := by
  induction tiles generalizing lo with
  | nil => exact Nat.le_of_eq tiling
  | cons tile rest ih =>
      have behind := ih tiling.2.2
      omega

/-- Every tile lies in the range. -/
theorem Tiles.bounds {tiles : List Tile} (tiling : Tiles start size tiles lo hi) {tile : Tile}
    (member : tile ∈ tiles) : lo ≤ start tile ∧ 0 < size tile ∧ start tile + size tile ≤ hi := by
  induction tiles generalizing lo with
  | nil => exact absurd member List.not_mem_nil
  | cons first rest ih =>
      obtain ⟨here, positive, behind⟩ := tiling
      rcases List.mem_cons.mp member with rfl | later
      · have inside := behind.le
        exact ⟨Nat.le_of_eq here.symm, positive, by omega⟩
      · have inside := ih behind later
        omega

/-- Every position of the range lies in a tile. -/
theorem Tiles.covers {tiles : List Tile} (tiling : Tiles start size tiles lo hi) {x : Nat} (low : lo ≤ x)
    (high : x < hi) : ∃ tile ∈ tiles, start tile ≤ x ∧ x < start tile + size tile := by
  induction tiles generalizing lo with
  | nil =>
      rw [← show lo = hi from tiling] at high
      omega
  | cons first rest ih =>
      obtain ⟨here, positive, behind⟩ := tiling
      by_cases inside : x < lo + size first
      · exact ⟨first, List.mem_cons_self, by omega, by omega⟩
      · obtain ⟨tile, member, bounds⟩ := ih behind (by omega)
        exact ⟨tile, List.mem_cons_of_mem _ member, bounds⟩

/-- Earlier tiles end before later ones start. -/
theorem Tiles.pairwise {tiles : List Tile} (tiling : Tiles start size tiles lo hi) :
    tiles.Pairwise fun first second => start first + size first ≤ start second := by
  induction tiles generalizing lo with
  | nil => exact List.Pairwise.nil
  | cons tile rest ih =>
      obtain ⟨here, positive, behind⟩ := tiling
      refine List.pairwise_cons.mpr ⟨?_, ih behind⟩
      intro later member
      have bounds := behind.bounds member
      omega

theorem Tiles.increasing {tiles : List Tile} (tiling : Tiles start size tiles lo hi) :
    tiles.Pairwise fun first second => start first < start second := by
  refine tiling.pairwise.imp_of_mem ?_
  intro first second inFirst _ apart
  have bounds := tiling.bounds inFirst
  omega

theorem Tiles.nodup {tiles : List Tile} (tiling : Tiles start size tiles lo hi) : tiles.Nodup :=
  tiling.increasing.imp fun {first second} less equal => by
    subst equal
    exact Nat.lt_irrefl _ less

/-- Two tiles are the same or disjoint. -/
theorem Tiles.disjoint {tiles : List Tile} (tiling : Tiles start size tiles lo hi) {first second : Tile}
    (inFirst : first ∈ tiles) (inSecond : second ∈ tiles) (distinct : first ≠ second) :
    start first + size first ≤ start second ∨ start second + size second ≤ start first := by
  let Apart (first second : Tile) : Prop :=
    start first + size first ≤ start second ∨ start second + size second ≤ start first
  have symmetric : Std.Symm Apart := ⟨fun _ _ => Or.symm⟩
  have apart : tiles.Pairwise Apart := tiling.pairwise.imp Or.inl
  exact apart.forall inFirst inSecond distinct

theorem Tiles.start_inj {tiles : List Tile} (tiling : Tiles start size tiles lo hi) {first second : Tile}
    (inFirst : first ∈ tiles) (inSecond : second ∈ tiles) (same : start first = start second) :
    first = second := by
  by_contra distinct
  have positive := tiling.bounds inFirst
  have bounds := tiling.bounds inSecond
  rcases tiling.disjoint inFirst inSecond distinct with before | after
  · omega
  · omega

/-- A range of so many units has at most so many tiles. -/
theorem Tiles.length_le {tiles : List Tile} {unit : Nat} (tiling : Tiles start size tiles lo hi)
    (large : ∀ tile ∈ tiles, unit ≤ size tile) : lo + unit * tiles.length ≤ hi := by
  induction tiles generalizing lo with
  | nil => exact Nat.le_of_eq tiling
  | cons tile rest ih =>
      obtain ⟨here, positive, behind⟩ := tiling
      have later := ih behind fun tile member => large tile (List.mem_cons_of_mem _ member)
      have first := large tile List.mem_cons_self
      rw [List.length_cons, Nat.mul_succ]
      omega

/-- Tiles of one size count the units of the range. -/
theorem Tiles.length_eq {tiles : List Tile} {unit : Nat} (tiling : Tiles start size tiles lo hi)
    (equal : ∀ tile ∈ tiles, size tile = unit) : lo + unit * tiles.length = hi := by
  induction tiles generalizing lo with
  | nil => exact tiling
  | cons tile rest ih =>
      obtain ⟨here, positive, behind⟩ := tiling
      have later := ih behind fun tile member => equal tile (List.mem_cons_of_mem _ member)
      rw [equal tile List.mem_cons_self] at later
      rw [List.length_cons, Nat.mul_succ]
      omega

theorem Tiles.sum_size {tiles : List Tile} (tiling : Tiles start size tiles lo hi) :
    lo + (tiles.map size).sum = hi := by
  induction tiles generalizing lo with
  | nil => exact tiling
  | cons tile rest ih =>
      have later := ih tiling.2.2
      rw [List.map_cons, List.sum_cons]
      omega

/-- Tiles of whole units start at whole units. -/
theorem Tiles.start_dvd {tiles : List Tile} {unit : Nat} (tiling : Tiles start size tiles lo hi)
    (whole : ∀ tile ∈ tiles, unit ∣ size tile) (first : unit ∣ lo) {tile : Tile} (member : tile ∈ tiles) :
    unit ∣ start tile := by
  induction tiles generalizing lo with
  | nil => exact absurd member List.not_mem_nil
  | cons head rest ih =>
      obtain ⟨here, positive, behind⟩ := tiling
      rcases List.mem_cons.mp member with rfl | later
      · exact here ▸ first
      · exact ih behind (fun tile member => whole tile (List.mem_cons_of_mem _ member))
          (Nat.dvd_add first (whole head List.mem_cons_self)) later

end Syslib.Tiling
