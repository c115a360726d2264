import DbEngine.Mvcc.Serializable
import DbEngine.Index.Invariant
import DbEngine.Sql.AccessPath
import DbEngine.Mvcc.WriteSkew
import DbEngine.Buffer.Transparent
import DbEngine.Wal.Abort
import DbEngine.Lsm.Visibility
import DbEngine.Mvcc.Bookkeeping
import DbEngine.Mvcc.Locks
import DbEngine.Lsm.SSTableSearch
import DbEngine.Lsm.Kill
import DbEngine.Sql.TableIds
import DbEngine.Buffer.Faults
import DbEngine.Mvcc.Collection
import DbEngine.Sql.Rejection
import DbEngine.Storage.DamagedFiles
import DbEngine.Cli.Shell
import DbEngine.Sql.Refinement
import DbEngine.Index.Frames
import DbEngine.Lsm.Capacity
import DbEngine.Wal.Drift
