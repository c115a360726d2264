import DbEngine.Common.Lists

/-!
# Files of pages

`storage/disk/disk_manager.cpp` for one file that is written, closed and opened again.  What
a page holds is of any type with a zero, which stands for the all-zero page.  Reads and
writes are taken to succeed.
-/

namespace DbEngine.Storage

variable {Page : Type} [Zero Page]

/-- A read of a page; past the end of the file it is filled with zeros. -/
def readFile (file : List Page) (pageId : Nat) : Page := file.getD pageId 0

/-- A write of a page, which extends the file if necessary. -/
def writeFile (file : List Page) (pageId : Nat) (page : Page) : List Page :=
  if pageId < file.length then file.set pageId page
  else file ++ replicate (pageId - file.length) 0 ++ [page]

lemma readFile_writeFile_self (file : List Page) (pageId : Nat) (page : Page) :
    readFile (writeFile file pageId page) pageId = page := by
  rw [readFile, writeFile]
  split
  next inside => simp [getD_eq_getElem?_getD, inside]
  next outside =>
    have size : (file ++ replicate (pageId - file.length) 0).length = pageId := by
      simp
      omega
    rw [List.getD_append_right _ _ _ _ (by omega), size]
    simp

lemma readFile_writeFile_of_ne (file : List Page) {pageId other : Nat} (page : Page)
    (differs : other ≠ pageId) :
    readFile (writeFile file pageId page) other = readFile file other := by
  rw [readFile, readFile, writeFile]
  split
  next inside => simp [getD_eq_getElem?_getD, List.getElem?_set_ne differs.symm]
  next outside =>
    simp only [getD_eq_getElem?_getD, append_assoc, List.getElem?_append]
    grind

lemma length_writeFile (file : List Page) (pageId : Nat) (page : Page) :
    (writeFile file pageId page).length = max file.length (pageId + 1) := by
  rw [writeFile]
  split <;> simp <;> omega

/-- Writing a page as it is in the file changes nothing. -/
lemma writeFile_readFile {file : List Page} {pageId : Nat} (inside : pageId < file.length) :
    writeFile file pageId (readFile file pageId) = file := by
  rw [writeFile, if_pos inside, readFile, List.getD_eq_getElem _ _ inside]
  exact List.set_getElem_self inside

/-- `DiskManager`. -/
structure DiskManager (Page : Type) where
  /-- The pages of the file, which stay when the manager goes. -/
  file : List Page
  nextPageId : Nat

namespace DiskManager

/-- The constructor. -/
def «open» (file : List Page) : DiskManager Page where
  file
  nextPageId := file.length

/-- `DiskManager::GetNumPages`. -/
def getNumPages (disk : DiskManager Page) : Nat := disk.nextPageId

/-- `DiskManager::ReadPage`. -/
def readPage (disk : DiskManager Page) (pageId : Nat) : Page := readFile disk.file pageId

/-- `DiskManager::WritePage`. -/
def writePage (disk : DiskManager Page) (pageId : Nat) (page : Page) : DiskManager Page :=
  { disk with file := writeFile disk.file pageId page }

/-- `DiskManager::AllocatePage`. -/
def allocatePage (disk : DiskManager Page) : Nat × DiskManager Page :=
  (disk.nextPageId, { disk with nextPageId := disk.nextPageId + 1 })

end DiskManager

end DbEngine.Storage
