import Mathlib.Data.Finset.Lattice.Fold
import Mathlib.Tactic

/-!
Page maps.

Physical memory is a function from the addresses of pages to their 512 words. An entry of a
table has the address of a page, flags, and in the bits from 52 on the number of entries in the
table that it points to. Physical pages come from an allocator `pick`, which is given the pages
in use; a function has no result where the code panics.
-/

namespace KernelModel.Vmm

/-! ### Entries -/

/-- `VMM_PAGE_FLAG_PRESENT` -/
def present (e : ℕ) : Bool := e % 2 = 1

/-- `VMM_PAGE_FLAG_LARGE` -/
def large (e : ℕ) : Bool := e / 2 ^ 7 % 2 = 1

/-- `VMM_PAGE_FLAG_EXTRA_LARGE` -/
def extraLarge (e : ℕ) : Bool := e / 2 ^ 50 % 2 = 1

/-- `VMM_PAGE_ADDRESS_MASK` -/
def address (e : ℕ) : ℕ := e % 2 ^ 48 / 2 ^ 12 * 2 ^ 12

/-- `VMM_PAGE_COUNT_MASK` -/
def count (e : ℕ) : ℕ := e / 2 ^ 52 % 2 ^ 11

/-- The index into the table whose entries stand for `2 ^ shift` bytes. -/
def index (virtualAddress shift : ℕ) : ℕ := virtualAddress / 2 ^ shift % 512

/-! ### Memory -/

structure State where
  mem : ℕ → ℕ → ℕ
  /-- The pages that the allocator has given out. -/
  used : Finset ℕ
  /-- `toplevel` of the page maps; the kernel's is 0. -/
  toplevel : ℕ → ℕ

/-- The place of an entry: in a page map itself, or in a table. -/
inductive Loc
  | toplevel (pagemap : ℕ)
  | entry (page index : ℕ)
  deriving DecidableEq, Repr

def State.read (s : State) : Loc → ℕ
  | .toplevel m => s.toplevel m
  | .entry p i => s.mem p i

def State.write (s : State) : Loc → ℕ → State
  | .toplevel m, e => { s with toplevel := Function.update s.toplevel m e }
  | .entry p i, e => { s with mem := Function.update s.mem p (Function.update (s.mem p) i e) }

/-- `pmm_alloc` of one page, which is cleared. -/
def pmmAlloc (pick : Finset ℕ → Option ℕ) (s : State) : Option (ℕ × State) :=
  (pick s.used).map fun p =>
    (p, { s with
      mem := Function.update s.mem p fun _ => 0
      used := insert p s.used })

def pmmDealloc (s : State) (p : ℕ) : State := { s with used := s.used.erase p }

/-! ### Tables -/

/-- The place of an entry of the table that `table` points to. -/
def child (s : State) (table : Loc) (i : ℕ) : Loc := .entry (address (s.read table)) i

/-- `_decrease_length` -/
def decreaseLength (s : State) (table : Loc) : Bool × State :=
  let e := s.read table
  if present e then
    let e := (e + 2 ^ 64 - 2 ^ 52) % 2 ^ 64
    if count e ≠ 0 then (false, s.write table e)
    else (true, (pmmDealloc s (address e)).write table 0)
  else (false, s)

/-- `_increase_length` -/
def increaseLength (s : State) (table : Loc) : State :=
  let e := s.read table
  if present e then s.write table ((e + 2 ^ 52) % 2 ^ 64) else s

/-- `_increase_length_if_entry_empty` -/
def increaseLengthIfEntryEmpty (s : State) (table : Loc) (i : ℕ) : State :=
  if s.read (child s table i) = 0 then increaseLength s table else s

/-- `_get_child_table`, which does not allocate. -/
def getChildTable (s : State) (table : Loc) (i : ℕ) : Option Loc :=
  if s.read (child s table i) ≠ 0 then some (child s table i) else none

/-- `_get_child_table` that allocates a table if there is none. -/
def allocChildTable (pick : Finset ℕ → Option ℕ) (s : State) (table : Loc) (i : ℕ) :
    Option (Loc × State) :=
  let entry := child s table i
  if s.read entry ≠ 0 then some (entry, s)
  else
    (pmmAlloc pick (increaseLength s table)).map fun r => (entry, r.2.write entry (r.1 ||| 7))

/-- `_lookup_virtual_address` -/
def lookupVirtualAddress (s : State) (pagemap virtualAddress : ℕ) : Option Loc :=
  (getChildTable s (.toplevel pagemap) (index virtualAddress 39)).bind fun pml3 =>
    if large (s.read (child s pml3 (index virtualAddress 30))) then
      some (child s pml3 (index virtualAddress 30))
    else
      (getChildTable s pml3 (index virtualAddress 30)).bind fun pml2 =>
        if large (s.read (child s pml2 (index virtualAddress 21))) then
          some (child s pml2 (index virtualAddress 21))
        else
          (getChildTable s pml2 (index virtualAddress 21)).map fun pml1 =>
            child s pml1 (index virtualAddress 12)

/-- `_unmap_page` -/
def unmapPage (s : State) (pagemap virtualAddress : ℕ) : ℕ × State :=
  match getChildTable s (.toplevel pagemap) (index virtualAddress 39) with
  | none => (0, s)
  | some pml3 =>
    let place := child s pml3 (index virtualAddress 30)
    let entry := s.read place
    if large entry then
      if virtualAddress % 2 ^ 30 ≠ 0 then (0, s)
      else (entry, (decreaseLength (s.write place 0) pml3).2)
    else
      match getChildTable s pml3 (index virtualAddress 30) with
      | none => (0, s)
      | some pml2 =>
        let place := child s pml2 (index virtualAddress 21)
        let entry := s.read place
        if large entry then
          if virtualAddress % 2 ^ 21 ≠ 0 then (0, s)
          else
            let r := decreaseLength (s.write place 0) pml2
            (entry, if r.1 then (decreaseLength r.2 pml3).2 else r.2)
        else
          match getChildTable s pml2 (index virtualAddress 21) with
          | none => (0, s)
          | some pml1 =>
            let place := child s pml1 (index virtualAddress 12)
            let entry := s.read place
            if entry = 0 then (0, s)
            else
              let r := decreaseLength (s.write place 0) pml1
              (entry,
                if r.1 then
                  let r := decreaseLength r.2 pml2
                  if r.1 then (decreaseLength r.2 pml3).2 else r.2
                else r.2)

/-! ### Page maps -/

/-- The tables of the upper half that `vmm_init` makes. -/
def initTables (pick : Finset ℕ → Option ℕ) (s : State) : List ℕ → Option State
  | [] => some s
  | i :: is => (pmmAlloc pick s).bind fun r =>
      initTables pick (r.2.write (child r.2 (.toplevel 0) i) (r.1 ||| 7)) is

/-- `vmm_init`, up to its calls of `vmm_map_page`. -/
def vmmInit (pick : Finset ℕ → Option ℕ) (s : State) : Option State :=
  (pmmAlloc pick s).bind fun r =>
    initTables pick (r.2.write (.toplevel 0) r.1) (List.range' 256 256)

/-- The loop of `vmm_pagemap_init`. -/
def copyEntries (s : State) (pagemap : ℕ) : List ℕ → State
  | [] => s
  | i :: is =>
    copyEntries (s.write (child s (.toplevel pagemap) i) (s.read (child s (.toplevel 0) i)))
      pagemap is

def vmmPagemapInit (pick : Finset ℕ → Option ℕ) (s : State) (pagemap : ℕ) : Option State :=
  (pmmAlloc pick s).map fun r =>
    copyEntries (r.2.write (.toplevel pagemap) r.1) pagemap (List.range' 256 256)

/-- The entry of a page; the flag that is no hardware flag is left out. -/
def pageEntry (physicalAddress flags : ℕ) : ℕ :=
  address physicalAddress ||| (flags &&& (2 ^ 64 - 1 - 2 ^ 50))

/-- Puts an entry into a table; there must be none that is present. -/
def placeEntry (s : State) (table : Loc) (i e : ℕ) : Option State :=
  if present (s.read (child s table i)) then none
  else
    let s := increaseLengthIfEntryEmpty s table i
    some (s.write (child s table i) e)

def vmmMapPage (pick : Finset ℕ → Option ℕ) (s : State)
    (pagemap physicalAddress virtualAddress flags : ℕ) : Option State :=
  (allocChildTable pick s (.toplevel pagemap) (index virtualAddress 39)).bind fun r =>
    let pml3 := r.1
    let s := r.2
    if extraLarge flags then
      if physicalAddress % 2 ^ 30 ≠ 0 ∨ virtualAddress % 2 ^ 30 ≠ 0 then none
      else
        placeEntry s pml3 (index virtualAddress 30) (pageEntry physicalAddress flags ||| 2 ^ 7)
    else
      (allocChildTable pick s pml3 (index virtualAddress 30)).bind fun r =>
        let pml2 := r.1
        let s := r.2
        if large flags then
          if physicalAddress % 2 ^ 21 ≠ 0 ∨ virtualAddress % 2 ^ 21 ≠ 0 then none
          else
            placeEntry s pml2 (index virtualAddress 21)
              (pageEntry physicalAddress flags ||| 2 ^ 7)
        else
          if physicalAddress % 2 ^ 12 ≠ 0 ∨ virtualAddress % 2 ^ 12 ≠ 0 then none
          else
            (allocChildTable pick s pml2 (index virtualAddress 21)).bind fun r =>
              placeEntry r.2 r.1 (index virtualAddress 12) (pageEntry physicalAddress flags)

def vmmUnmapPage (s : State) (pagemap virtualAddress : ℕ) : ℕ × State :=
  if virtualAddress % 2 ^ 12 ≠ 0 then (0, s) else unmapPage s pagemap virtualAddress

/-- The address that an entry for `2 ^ shift` bytes gives. -/
def translated (entry virtualAddress shift : ℕ) : ℕ :=
  if entry ≠ 0 then address entry ||| virtualAddress % 2 ^ shift else 0

def vmmVirtualToPhysical (s : State) (pagemap virtualAddress : ℕ) : ℕ :=
  match getChildTable s (.toplevel pagemap) (index virtualAddress 39) with
  | none => 0
  | some pml3 =>
    let entry := s.read (child s pml3 (index virtualAddress 30))
    if large entry then translated entry virtualAddress 30
    else
      match getChildTable s pml3 (index virtualAddress 30) with
      | none => 0
      | some pml2 =>
        let entry := s.read (child s pml2 (index virtualAddress 21))
        if large entry then translated entry virtualAddress 21
        else
          match getChildTable s pml2 (index virtualAddress 21) with
          | none => 0
          | some pml1 =>
            translated (s.read (child s pml1 (index virtualAddress 12))) virtualAddress 12

/-- One round of the loop of `vmm_adjust_flags`. -/
def adjustFlags (s : State) (pagemap virtualAddress setFlags clearFlags : ℕ) : State :=
  match lookupVirtualAddress s pagemap virtualAddress with
  | some entry =>
    s.write entry ((s.read entry &&& (2 ^ 64 - 1 - clearFlags)) ||| setFlags)
  | none => s

def vmmAdjustFlags (s : State) (pagemap virtualAddress setFlags clearFlags : ℕ) : ℕ → State
  | 0 => s
  | n + 1 =>
    vmmAdjustFlags (adjustFlags s pagemap virtualAddress setFlags clearFlags) pagemap
      ((virtualAddress + 2 ^ 12) % 2 ^ 64) setFlags clearFlags n

end KernelModel.Vmm
