import NtAdmin.Lib.Prog
import NtAdmin.Lib.Reader
import NtAdmin.Wmi.PageMgr.PageCacheCoherence
import NtAdmin.Wmi.PageMgr.Rollback
import NtAdmin.Drizzle.Server.AsyncReaderRun
import NtAdmin.Drizzle.Server.SessionRun
import NtAdmin.Drizzle.Server.FragmentArithmetic
import NtAdmin.Drizzle.Server.NotificationPost
import NtAdmin.Drizzle.Server.PhysicalPaths
import NtAdmin.Drizzle.Newjob.Delivery
import NtAdmin.Drizzle.Newjob.DownloaderRun
import NtAdmin.Drizzle.Newjob.MetadataRun
import NtAdmin.Drizzle.Newjob.QueueRoundTrip
import NtAdmin.Drizzle.Newjob.TaskSchedulerRun
import NtAdmin.Drizzle.Newjob.ManagerRun
import NtAdmin.Drizzle.Newjob.ReaderWriterLockCancel
import NtAdmin.Sched.Common.RunListOrder
import NtAdmin.Sched.Job.PersistSaveLoad
import NtAdmin.Sched.Schedule.AtRoundTrip
import NtAdmin.Sched.Job.MonthlyDateValid
import NtAdmin.Sched.SvcCore.SecuritySave
import NtAdmin.Drizzle.Newjob.VolumeLockRun
import NtAdmin.Wmi.Wbemcomn.LikeAgreement
import NtAdmin.Wmi.Containers.CacheRun
import NtAdmin.Wmi.Containers.AvlRun
import NtAdmin.Sr.Kernel.ParsedPath
import NtAdmin.Sr.Kernel.PathLookup
import NtAdmin.Sr.Kernel.HashRun
import NtAdmin.Wmi.Wbemcomn.DmtfRoundTrip
import NtAdmin.Sr.Restmap.RestoreMap
import NtAdmin.Sr.Restmap.RestoreListRun
import NtAdmin.Wmi.Wbemcomn.MrciSafety
import NtAdmin.Wmi.Esscli.SortedArrayAlgebra
import NtAdmin.Wmi.Esscli.WbemdnfTruth
import NtAdmin.Wmi.VarObjHeap.MultiPage
import NtAdmin.Wmi.VarObjHeap.HeapRun
import NtAdmin.Wmi.ObjHeap.ObjectEnumeration
import NtAdmin.Wmi.Containers.CacheTicks
import NtAdmin.Wmi.Containers.BasicTreeRun
import NtAdmin.Wmi.Btr.KeyTable
import NtAdmin.Wmi.Btr.IteratorBatch
import NtAdmin.Wmi.Btr.TreeIterator
import NtAdmin.Wmi.Btr.KeyTableRun
import NtAdmin.Wmi.Btr.TreeEnumeration
import NtAdmin.Sched.SvcCore.SacUpdate
import NtAdmin.Wmi.A51.ParseKey
import NtAdmin.Wmi.A51.ComputeKey
import NtAdmin.Lib.ExchangeSort
import NtAdmin.Sched.SvcCore.Scavenge
import NtAdmin.Sched.SvcCore.SecurityRoundTrip
import NtAdmin.Wmi.PageMgr.FreeRuns
import NtAdmin.Wmi.PageMgr.LogicalPages
import NtAdmin.Wmi.PageMgr.PageSource
import NtAdmin.Wmi.A51.Session
import NtAdmin.Wmi.A51.ForestRun
import NtAdmin.Wmi.PageMgr.MapFile
import NtAdmin.Wmi.PageMgr.MapRoundTrip
import NtAdmin.Wmi.PageMgr.CompactPages
